import SlmOs.ModelMem.Pool

/-!
# The books of a pool

State tag, reference count, generation and the counters of a pool are redundant.
`Change` says once what an operation can do; from it follows that they agree after
every history.
-/

namespace SlmOs.ModelMem

open Function Foundation BlockSlot History List MemoryPool Nat Option Or

/-! ## Handles that are accepted -/

structure MemoryPool.Valid (p : MemoryPool) (h : ModelHandle) : Prop where
  lt : h.blockIndex < p.blockCount
  live : (p.blocks h.blockIndex).state ≠ .free
  generation : (p.blocks h.blockIndex).generation = h.generation

section

variable {p : MemoryPool} {h : ModelHandle}

theorem MemoryPool.check_eq_ok : p.check h = .ok b ↔ p.Valid h ∧ p.blocks h.blockIndex = b := by
  constructor
  · intro hc
    simp only [check] at hc
    split_ifs at hc with hlt hgen hfree
    exact ⟨⟨not_le.mp hlt, hfree, not_not.mp hgen⟩, Except.ok.inj hc⟩
  rintro ⟨⟨hlt, hfree, hgen⟩, rfl⟩
  simp [check, not_le.mpr hlt, hfree, hgen]

theorem MemoryPool.check_eq_error (hc : p.check h = .error e) : ¬ p.Valid h := fun hv => by
  cases hc.symm.trans (check_eq_ok.mpr ⟨hv, rfl⟩)

theorem MemoryPool.slotMut_eq_ok : p.slotMut h = .ok b ↔ p.Valid h ∧ p.blocks h.blockIndex = b := by
  rw [← check_eq_ok, slotMut, check]
  split_ifs <;> simp

theorem MemoryPool.slotMut_eq_error (hc : p.slotMut h = .error e) : ¬ p.Valid h := fun hv => by
  cases hc.symm.trans (slotMut_eq_ok.mpr ⟨hv, rfl⟩)

theorem MemoryPool.checked_eq_some {v : Nat} : (if p.blockCount ≤ h.blockIndex then none
      else if (p.blocks h.blockIndex).generation ≠ h.generation ∨
        (p.blocks h.blockIndex).state = .free then none
      else some v) = some a ↔ p.Valid h ∧ v = a := by
  constructor
  · intro hc
    split_ifs at hc with hlt hbad
    obtain ⟨hgen, hfree⟩ := not_or.mp hbad
    exact ⟨⟨not_le.mp hlt, hfree, not_not.mp hgen⟩, some.inj hc⟩
  rintro ⟨⟨hlt, hfree, hgen⟩, rfl⟩
  simp [not_le.mpr hlt, hfree, hgen]

theorem MemoryPool.getPtr_eq_some : p.getPtr h = some a ↔
    p.Valid h ∧ p.baseAddr + h.blockIndex * blockSize = a := checked_eq_some

theorem MemoryPool.getSize_eq_some : p.getSize h = some a ↔
    p.Valid h ∧ (p.blocks h.blockIndex).sizeBlocks * blockSize = a := checked_eq_some

variable {p' : MemoryPool}

theorem MemoryPool.free_eq_ok : p.free h = .ok p' ↔ p.Valid h ∧
      p' = if 1 < (p.blocks h.blockIndex).refcount then
          p.set h.blockIndex (p.blocks h.blockIndex).unshare
        else
          { p.set h.blockIndex (p.blocks h.blockIndex).release with
            freeCount := p.freeCount + 1 } := by
  rw [free]
  cases hc : p.check h with
  | error e =>
    simp [check_eq_error hc]
  | ok b =>
    obtain ⟨hv, rfl⟩ := check_eq_ok.mp hc
    simp only [hv, true_and]
    split_ifs <;> simp [eq_comm]

theorem MemoryPool.share_eq_ok : p.share h = .ok r ↔
      p.Valid h ∧ r = (p.set h.blockIndex (p.blocks h.blockIndex).retain, h) := by
  rw [share]
  cases hc : p.check h with
  | error e =>
    simp [check_eq_error hc]
  | ok b =>
    obtain ⟨hv, rfl⟩ := check_eq_ok.mp hc
    simp [hv, eq_comm]

theorem MemoryPool.track_eq_ok : p.track h n = .ok p' ↔ p.Valid h ∧
      p' = p.set h.blockIndex ((p.blocks h.blockIndex).noted n) := by
  rw [track]
  cases hc : p.slotMut h with
  | error e =>
    simp [slotMut_eq_error hc]
  | ok b =>
    obtain ⟨hv, rfl⟩ := slotMut_eq_ok.mp hc
    simp [hv, eq_comm]

theorem isOk_iff_exists {ε α : Type} {x : Except ε α} : x.isOk = true ↔ ∃ a, x = .ok a := by
  cases x <;> simp [Except.isOk, Except.toBool]

theorem MemoryPool.accepts_iff {u : Use} : p.accepts h u = true ↔ p.Valid h := by
  cases u with
  | share | free | getPtr | getSize | note n =>
    simp only [accepts, isOk_iff_exists, isSome_iff_exists, share_eq_ok, free_eq_ok,
      getPtr_eq_some, getSize_eq_some, track_eq_ok]
    exact ⟨fun ⟨_, hv, _⟩ => hv, fun hv => ⟨_, hv, rfl⟩⟩

theorem MemoryPool.reclaim_eq_true :
    p.reclaim poolId i g = (p', true) ↔ p.Valid ⟨i, poolId, g⟩ ∧ (p.blocks i).refcount ≤ 1 ∧
        p' = { p.set i (p.blocks i).release with
          freeCount := p.freeCount + 1
          evictionsTotal := min (p.evictionsTotal + 1) maxU64 } := by
  rw [reclaim]
  by_cases hev : (p.blocks i).isEvictable = true
  · have hone : (p.blocks i).refcount ≤ 1 := by
      simp only [isEvictable, Bool.and_eq_true, decide_eq_true_eq] at hev
      exact hev.2
    rw [if_pos hev]
    cases hfree : p.free ⟨i, poolId, g⟩ with
    | error e =>
      have hno : ¬ p.Valid ⟨i, poolId, g⟩ := fun hv => by
        cases hfree.symm.trans (free_eq_ok.mpr ⟨hv, rfl⟩)
      simp [hno]
    | ok p₁ =>
      obtain ⟨hv, rfl⟩ := free_eq_ok.mp hfree
      simp only [hv, hone, true_and, if_neg (not_lt.mpr hone), Prod.mk.injEq, and_true]
      exact eq_comm
  rw [if_neg hev]
  have hno : ¬ (p.Valid ⟨i, poolId, g⟩ ∧ (p.blocks i).refcount ≤ 1) := fun hv =>
    hev (by simpa [isEvictable] using ⟨hv.1.live, hv.2⟩)
  simp only [Prod.mk.injEq, Bool.false_eq_true, and_false, false_iff]
  exact fun hv => hno ⟨hv.1, hv.2.1⟩

end

/-! ## What an operation does -/

/-- An operation fails, or it changes one block and the counters with it. -/
inductive Change (poolId : Nat) (s : History) : Op → History → Prop
  | same (op : Op) : Change poolId s op s
  | take (i now owner : Nat) (hi : i < s.pool.blockCount)
      (hfree : (s.pool.blocks i).state = .free) :
      Change poolId s (.alloc now owner)
        { s with
          pool := { s.pool.set i ((s.pool.blocks i).take now owner) with
            freeCount := s.pool.freeCount - 1
            peakUsage := max s.pool.peakUsage (s.pool.blockCount - (s.pool.freeCount - 1)) }
          grants := update s.grants i 1
          frees := update s.frees i 0
          issued := (⟨i, poolId, (s.pool.blocks i).generation⟩, s.epoch i) :: s.issued }
  | retain (h : ModelHandle) (hv : s.pool.Valid h) (hpool : h.poolId = poolId) :
      Change poolId s (.share h)
        { s with
          pool := s.pool.set h.blockIndex (s.pool.blocks h.blockIndex).retain
          grants := History.bump s.grants h.blockIndex
          issued := (h, s.epoch h.blockIndex) :: s.issued }
  | unshare (h : ModelHandle) (hv : s.pool.Valid h)
      (hmany : 1 < (s.pool.blocks h.blockIndex).refcount) :
      Change poolId s (.free h)
        { s with
          pool := s.pool.set h.blockIndex (s.pool.blocks h.blockIndex).unshare
          frees := History.bump s.frees h.blockIndex }
  | release (h : ModelHandle) (hv : s.pool.Valid h)
      (hone : (s.pool.blocks h.blockIndex).refcount ≤ 1) :
      Change poolId s (.free h)
        { s with
          pool := { s.pool.set h.blockIndex (s.pool.blocks h.blockIndex).release with
            freeCount := s.pool.freeCount + 1 }
          frees := History.bump s.frees h.blockIndex
          epoch := History.bump s.epoch h.blockIndex }
  | evict (i g : Nat) (hv : s.pool.Valid ⟨i, poolId, g⟩)
      (hone : (s.pool.blocks i).refcount ≤ 1) :
      Change poolId s (.evict i g)
        { s with
          pool := { s.pool.set i (s.pool.blocks i).release with
            freeCount := s.pool.freeCount + 1
            evictionsTotal := min (s.pool.evictionsTotal + 1) maxU64 }
          epoch := History.bump s.epoch i
          reclaimed := s.reclaimed + 1 }
  | note (h : ModelHandle) (n : Note) (hv : s.pool.Valid h) :
      Change poolId s (.note h n)
        { s with
          pool := s.pool.set h.blockIndex ((s.pool.blocks h.blockIndex).noted n) }

theorem BlockSlot.unshare_live {b : BlockSlot} (h : b.state ≠ .free) : b.unshare.state ≠ .free := by
  simp only [unshare]
  split
  · simp
  · exact h

theorem MemoryPool.alloc_eq_ok {p : MemoryPool} {poolId now owner : Nat}
    {r : MemoryPool × ModelHandle} (h : p.alloc poolId now owner = .ok r) :
    ∃ i < p.blockCount, (p.blocks i).state = .free ∧
      r = ({ p.set i ((p.blocks i).take now owner) with
          freeCount := p.freeCount - 1
          peakUsage := max p.peakUsage (p.blockCount - (p.freeCount - 1)) },
        ⟨i, poolId, (p.blocks i).generation⟩) := by
  have hmax : ∀ a b : Nat, (if a < b then b else a) = max a b := by
    intro a b
    split <;> omega
  simp only [alloc, hmax] at h
  split_ifs at h with hzero
  split at h
  · cases h
  rename_i i hfind
  obtain ⟨hi, hfree⟩ := find?_range_some hfind
  exact ⟨i, hi, by simpa using hfree, (Except.ok.inj h).symm⟩

theorem perform_change {poolId : Nat} (s : History) {op : Op}
    (hop : op.goesTo poolId = true) : Change poolId s op (s.perform poolId op) := by
  cases op with
  | alloc now owner =>
    simp only [perform]
    split
    · exact .same _
    rename_i p h hok
    obtain ⟨i, hi, hfree, hr⟩ := alloc_eq_ok hok
    cases hr
    exact .take i now owner hi hfree
  | share h =>
    simp only [perform]
    split
    · exact .same _
    rename_i p h' hok
    obtain ⟨hv, hr⟩ := share_eq_ok.mp hok
    cases hr
    exact .retain h hv (by simpa [Op.goesTo] using hop)
  | free h =>
    simp only [perform]
    split
    · exact .same _
    rename_i p hok
    obtain ⟨hv, rfl⟩ := free_eq_ok.mp hok
    by_cases hmany : 1 < (s.pool.blocks h.blockIndex).refcount
    · have hlive := unshare_live hv.live
      simp only [if_pos hmany, MemoryPool.set, update_self, hlive, if_false]
      exact .unshare h hv hmany
    simp only [if_neg hmany, MemoryPool.set, update_self, release, if_true]
    exact .release h hv (not_lt.mp hmany)
  | evict i g =>
    simp only [perform]
    split
    · exact .same _
    rename_i p hok
    obtain ⟨hv, hone, rfl⟩ := reclaim_eq_true.mp hok
    exact .evict i g hv hone
  | note h n =>
    simp only [perform]
    split
    · exact .same _
    rename_i p hok
    obtain ⟨hv, rfl⟩ := track_eq_ok.mp hok
    exact .note h n hv

/-! ## Blocks in use -/

@[simp] theorem History.bump_self (f : Nat → Nat) (i : Nat) :
    History.bump f i i = f i + 1 := update_self ..

theorem History.bump_of_ne {f : Nat → Nat} (h : j ≠ i) :
    History.bump f i j = f j := update_of_ne h ..

section

variable {p : MemoryPool} {i : Nat} {b : BlockSlot}

theorem MemoryPool.used_init (base count : Nat) : (MemoryPool.init base count).used = 0 :=
  countP_eq_zero.mpr fun i _ => by simp [init, BlockSlot.new]

theorem MemoryPool.used_le (p : MemoryPool) : p.used ≤ p.blockCount :=
  countP_le_length.trans_eq length_range

theorem MemoryPool.used_set_live (hold : (p.blocks i).state ≠ .free)
    (hnew : b.state ≠ .free) : (p.set i b).used = p.used := by
  refine countP_congr fun j _ => ?_
  by_cases hj : j = i
  · subst hj
    simp [set, hold, hnew]
  · simp [set, hj]

theorem MemoryPool.used_set_take (hi : i < p.blockCount) (hold : (p.blocks i).state = .free)
    (hnew : b.state ≠ .free) : (p.set i b).used = p.used + 1 :=
  countP_succ (b := i) (by simp [hold]) (by simpa [set] using hnew)
    (fun j hj => by simp [set, hj]) nodup_range (mem_range.mpr hi)

theorem MemoryPool.used_set_release (hi : i < p.blockCount) (hold : (p.blocks i).state ≠ .free)
    (hnew : b.state = .free) : p.used = (p.set i b).used + 1 :=
  countP_succ (b := i) (by simp [set, hnew]) (by simpa using hold)
    (fun j hj => by simp [set, hj]) nodup_range (mem_range.mpr hi)

end

structure BlockSlot.Sound (b : BlockSlot) (epoch : Nat) : Prop where
  none : b.refcount = 0 ↔ b.state = .free
  many : b.state = .shared ↔ 1 < b.refcount
  generation : b.generation = epoch % 256
  size : b.state ≠ .free → b.sizeBlocks = 1

namespace BlockSlot.Sound

variable {b : BlockSlot} {e : Nat}

section

variable (h : b.Sound e)
include h

theorem take (now owner : Nat) : (b.take now owner).Sound e :=
  ⟨by simp [BlockSlot.take], by simp [BlockSlot.take], h.generation, fun _ => rfl⟩

theorem retain (hlive : b.state ≠ .free) : b.retain.Sound e := by
  have hpos : b.refcount ≠ 0 := fun hz => hlive (h.none.mp hz)
  refine ⟨?_, ?_, h.generation, fun _ => h.size hlive⟩
  · simp [BlockSlot.retain, maxU16]
  simp only [BlockSlot.retain, maxU16, true_iff]
  omega

theorem unshare (hmany : 1 < b.refcount) : b.unshare.Sound e := by
  have hshared := h.many.mpr hmany
  have hlive : b.state ≠ .free := by simp [hshared]
  refine ⟨?_, ?_, h.generation, fun _ => h.size hlive⟩
  · have := BlockSlot.unshare_live hlive
    simp only [this, iff_false]
    simp only [BlockSlot.unshare]
    omega
  simp only [BlockSlot.unshare, hshared]
  split
  all_goals
    simp
    omega

theorem release : b.release.Sound (e + 1) :=
  ⟨by simp [BlockSlot.release], by simp [BlockSlot.release],
    by simp [BlockSlot.release, h.generation], fun hf => absurd rfl hf⟩

theorem noted (n : Note) : (b.noted n).Sound e := ⟨h.none, h.many, h.generation, h.size⟩

end

end BlockSlot.Sound

/-- A handle that has been given out names a block, and a block that is `Free` only
if that was freed since. -/
structure History.Names (poolId : Nat) (s : History) (h : ModelHandle) (e : Nat) :
    Prop where
  lt : h.blockIndex < s.pool.blockCount
  poolId : h.poolId = poolId
  generation : h.generation = e % 256
  epoch : e ≤ s.epoch h.blockIndex
  live : e = s.epoch h.blockIndex → (s.pool.blocks h.blockIndex).state ≠ .free

structure History.Sound (poolId : Nat) (s : History) : Prop where
  counted : s.pool.freeCount + s.pool.used = s.pool.blockCount
  blocks : ∀ i < s.pool.blockCount, (s.pool.blocks i).Sound (s.epoch i)
  issued : ∀ x ∈ s.issued, s.Names poolId x.1 x.2

theorem History.sound_init (poolId base count : Nat) : (History.init base count).Sound poolId where
  counted := by
    rw [History.init, MemoryPool.used_init]
    rfl
  blocks := fun i _ => by constructor <;> simp [History.init, MemoryPool.init, BlockSlot.new]
  issued := nofun

section

variable {poolId : Nat} {s s' : History}

theorem History.Sound.set (h : s.Sound poolId) (hblocks : s'.pool.blocks = update s.pool.blocks i b)
    (hn : s'.pool.blockCount = s.pool.blockCount) (hepoch : ∀ j, j ≠ i → s'.epoch j = s.epoch j)
    (hcounted : s'.pool.freeCount + s'.pool.used = s.pool.blockCount) (hb : b.Sound (s'.epoch i))
    (hissued : ∀ x ∈ s'.issued, x ∈ s.issued ∨ s'.Names poolId x.1 x.2)
    (hnames : s'.epoch i = s.epoch i + 1 ∨ s'.epoch i = s.epoch i ∧ b.state ≠ .free) :
    s'.Sound poolId where
  counted := by rw [hcounted, hn]
  blocks := by
    intro j hj
    rw [hblocks]
    by_cases hji : j = i
    · subst hji
      simpa using hb
    rw [update_of_ne hji, hepoch j hji]
    exact h.blocks j (hn ▸ hj)
  issued := by
    intro x hx
    refine (hissued x hx).elim (fun hx => ?_) id
    have hx := h.issued x hx
    by_cases hxi : x.1.blockIndex = i
    · refine ⟨hn ▸ hx.lt, hx.poolId, hx.generation, ?_, ?_⟩
      · have := hx.epoch
        rw [hxi] at this ⊢
        omega
      · intro he
        have := hx.epoch
        rw [hxi] at he this ⊢
        rw [hblocks, update_self]
        rcases hnames with hup | ⟨-, hlive⟩
        · omega
        · exact hlive
    refine ⟨hn ▸ hx.lt, hx.poolId, hx.generation, ?_, ?_⟩
    · rw [hepoch _ hxi]
      exact hx.epoch
    rw [hepoch _ hxi, hblocks, update_of_ne hxi]
    exact hx.live

variable {op : Op}

theorem History.Sound.change (h : s.Sound poolId)
    (hc : Change poolId s op s') : s'.Sound poolId := by
  have hcounted := h.counted
  cases hc with
  | same => exact h
  | take i now owner hi hfree =>
    have hlive : ((s.pool.blocks i).take now owner).state ≠ .free := by
      simp [BlockSlot.take]
    have hused := MemoryPool.used_set_take hi hfree hlive
    have hle := (s.pool.set i ((s.pool.blocks i).take now owner)).used_le
    refine h.set (i := i) rfl rfl (fun _ _ => rfl) ?_ ((h.blocks i hi).take now owner)
      (fun x hx => ?_) (inr ⟨rfl, hlive⟩)
    · change s.pool.freeCount - 1 + (s.pool.set i ((s.pool.blocks i).take now owner)).used = _
      change _ ≤ s.pool.blockCount at hle
      omega
    rcases List.mem_cons.mp hx with rfl | hx
    · exact inr ⟨hi, rfl, (h.blocks i hi).generation, le_rfl, fun _ => by
        simpa [MemoryPool.set] using hlive⟩
    · exact inl hx
  | retain k hv hpool =>
    have hlive : (s.pool.blocks k.blockIndex).retain.state ≠ .free := by
      simp [BlockSlot.retain]
    have hb := h.blocks _ hv.lt
    refine h.set rfl rfl (fun _ _ => rfl) ?_ (hb.retain hv.live) (fun x hx => ?_) (inr ⟨rfl, hlive⟩)
    · rw [MemoryPool.used_set_live hv.live hlive]
      exact hcounted
    rcases List.mem_cons.mp hx with rfl | hx
    · exact inr ⟨hv.lt, hpool, hv.generation.symm.trans hb.generation, le_rfl,
        fun _ => by simpa [MemoryPool.set] using hlive⟩
    · exact inl hx
  | unshare k hv hmany =>
    have hlive := BlockSlot.unshare_live hv.live
    refine h.set rfl rfl (fun _ _ => rfl) ?_ ((h.blocks _ hv.lt).unshare hmany)
      (fun x hx => inl hx) (inr ⟨rfl, hlive⟩)
    rw [MemoryPool.used_set_live hv.live hlive]
    exact hcounted
  | release k hv hone =>
    have hused := MemoryPool.used_set_release hv.lt hv.live
      (b := (s.pool.blocks k.blockIndex).release) rfl
    refine h.set (i := k.blockIndex) rfl rfl (fun j hj => History.bump_of_ne hj)
      ?_ (by simpa using (h.blocks _ hv.lt).release) (fun x hx => inl hx)
      (inl (History.bump_self _ _))
    change s.pool.freeCount + 1 +
      (s.pool.set k.blockIndex (s.pool.blocks k.blockIndex).release).used = _
    omega
  | evict i g hv hone =>
    have hused := MemoryPool.used_set_release (i := i) hv.lt hv.live
      (b := (s.pool.blocks i).release) rfl
    refine h.set (i := i) rfl rfl (fun j hj => History.bump_of_ne hj) ?_
      (by simpa using (h.blocks i hv.lt).release) (fun x hx => inl hx)
      (inl (History.bump_self _ _))
    change s.pool.freeCount + 1 + (s.pool.set i (s.pool.blocks i).release).used = _
    omega
  | note k n hv =>
    refine h.set rfl rfl (fun _ _ => rfl) ?_ ((h.blocks _ hv.lt).noted n)
      (fun x hx => inl hx) (inr ⟨rfl, hv.live⟩)
    rw [MemoryPool.used_set_live (b := BlockSlot.noted _ n) hv.live hv.live]
    exact hcounted

theorem step_eq_some (hstep : History.step poolId s op = some s') : op.goesTo poolId = true ∧
      s' = { s.perform poolId op with
        maxUsed := max (s.perform poolId op).maxUsed (s.perform poolId op).pool.used } := by
  simp only [step, ite_none_right_eq_some, some.injEq] at hstep
  exact ⟨hstep.1, hstep.2.symm⟩

theorem History.Sound.step (h : s.Sound poolId)
    (hstep : History.step poolId s op = some s') : s'.Sound poolId := by
  obtain ⟨hop, rfl⟩ := step_eq_some hstep
  obtain ⟨hcounted, hblocks, hissued⟩ := h.change (perform_change s hop)
  exact ⟨hcounted, hblocks, fun x hx =>
    ⟨(hissued x hx).lt, (hissued x hx).poolId, (hissued x hx).generation,
      (hissued x hx).epoch, (hissued x hx).live⟩⟩

variable {base count : Nat}

theorem sound_run {ok : History → Op → Prop}
    (hrun : Run (History.step poolId) ok (History.init base count) s) : s.Sound poolId :=
  Run.invariant (fun _ _ _ h _ hstep => History.Sound.step h hstep)
    (sound_init poolId base count) hrun

/-! ## The peak -/

structure History.Peak (s : History) : Prop where
  peak : s.pool.peakUsage = s.maxUsed
  used_le : s.pool.used ≤ s.maxUsed

theorem Change.peak (hc : Change poolId s op s') :
    s'.maxUsed = s.maxUsed ∧ s'.pool.blockCount = s.pool.blockCount ∧
      (s.pool.freeCount ≤ s'.pool.freeCount ∧ s'.pool.peakUsage = s.pool.peakUsage ∨
        s'.pool.peakUsage = max s.pool.peakUsage (s'.pool.blockCount - s'.pool.freeCount)) := by
  cases hc with
  | take i now owner hi hfree => exact ⟨rfl, rfl, inr rfl⟩
  | release k hv hone | evict i g hv hone => exact ⟨rfl, rfl, inl ⟨le_succ _, rfl⟩⟩
  | _ => exact ⟨rfl, rfl, inl ⟨le_rfl, rfl⟩⟩

theorem History.Peak.step (h : s.Peak) (hs : s.Sound poolId)
    (hstep : History.step poolId s op = some s') : s'.Peak := by
  obtain ⟨hop, rfl⟩ := step_eq_some hstep
  have hc := perform_change s hop
  have hbefore := hs.counted
  have hafter := (hs.change hc).counted
  obtain ⟨hpeak, hle⟩ := h
  obtain ⟨hmax, hn, hcase⟩ := hc.peak
  refine ⟨?_, le_max_right _ _⟩
  change (s.perform poolId op).pool.peakUsage = max _ _
  rcases hcase with ⟨hfree, hsame⟩ | hnew <;> omega

theorem peak_run {ok : History → Op → Prop}
    (hrun : Run (History.step poolId) ok (History.init base count) s) : s.Peak := by
  have hinit : (History.init base count).Peak := ⟨rfl, le_of_eq (MemoryPool.used_init base count)⟩
  exact (Run.invariant (I := fun s => s.Sound poolId ∧ s.Peak)
    (fun _ _ _ h _ hstep => ⟨h.1.step hstep, h.2.step h.1 hstep⟩)
    ⟨History.sound_init poolId base count, hinit⟩ hrun).2

/-! ## References -/

/-- A block in use has as many references as it was given and not freed. -/
def History.Balance (s : History) : Prop :=
  ∀ i < s.pool.blockCount, (s.pool.blocks i).state ≠ .free →
    (s.pool.blocks i).refcount + s.frees i = s.grants i

def History.Bounded (s : History) : Op → Prop
  | .share h => s.grants h.blockIndex < s.frees h.blockIndex + maxU16
  | _ => True

theorem History.Balance.set (h : s.Balance) (hblocks : s'.pool.blocks = update s.pool.blocks i b)
    (hn : s'.pool.blockCount = s.pool.blockCount) (hgrants : ∀ j, j ≠ i → s'.grants j = s.grants j)
    (hfrees : ∀ j, j ≠ i → s'.frees j = s.frees j)
    (hb : b.state ≠ .free → b.refcount + s'.frees i = s'.grants i) : s'.Balance := by
  intro j hj hlive
  rw [hblocks] at hlive ⊢
  by_cases hji : j = i
  · subst hji
    simpa using hb (by simpa using hlive)
  rw [update_of_ne hji] at hlive ⊢
  rw [hgrants j hji, hfrees j hji]
  exact h j (hn ▸ hj) hlive

theorem History.Balance.change (h : s.Balance)
    (hok : s.Bounded op) (hc : Change poolId s op s') : s'.Balance := by
  cases hc with
  | same => exact h
  | take i now owner hi hfree =>
    refine h.set (i := i) rfl rfl (fun j hj => update_of_ne hj ..)
      (fun j hj => update_of_ne hj ..) fun _ => ?_
    simp [BlockSlot.take]
  | retain k hv hpool =>
    have hold := h _ hv.lt hv.live
    refine h.set (i := k.blockIndex) rfl rfl (fun j hj => History.bump_of_ne hj)
      (fun _ _ => rfl) fun _ => ?_
    simp only [History.bump_self, BlockSlot.retain]
    simp only [History.Bounded] at hok
    omega
  | unshare k hv hmany =>
    have hold := h _ hv.lt hv.live
    refine h.set (i := k.blockIndex) rfl rfl (fun _ _ => rfl)
      (fun j hj => History.bump_of_ne hj) fun _ => ?_
    simp only [History.bump_self, BlockSlot.unshare]
    omega
  | release k hv hone =>
    exact h.set (i := k.blockIndex) rfl rfl (fun _ _ => rfl)
      (fun j hj => History.bump_of_ne hj) fun hlive => absurd rfl hlive
  | evict i g hv hone =>
    exact h.set (i := i) rfl rfl (fun _ _ => rfl) (fun _ _ => rfl) fun hlive => absurd rfl hlive
  | note k n hv =>
    exact h.set (i := k.blockIndex) rfl rfl (fun _ _ => rfl) (fun _ _ => rfl)
      fun _ => h _ hv.lt hv.live

theorem History.Balance.step (h : s.Balance) (hok : s.Bounded op)
    (hstep : History.step poolId s op = some s') : s'.Balance := by
  obtain ⟨hop, rfl⟩ := step_eq_some hstep
  have hperform := h.change hok (perform_change s hop)
  exact hperform

theorem balance_run (hrun : Run (History.step poolId) History.Bounded (History.init base count) s) :
    s.Balance :=
  Run.invariant (fun _ _ _ h hok hstep => History.Balance.step h hok hstep)
    (fun _ _ hlive => absurd rfl hlive) hrun

/-- A block stays as `Free` as it is, or `alloc` takes it, or its last reference goes. -/
theorem Change.block (hc : Change poolId s op s') (i : Nat) :
    ((s'.pool.blocks i).state = .free ↔ (s.pool.blocks i).state = .free) ∨
    (∃ now owner, op = .alloc now owner) ∧ (s'.pool.blocks i).state ≠ .free ∨
    (s.pool.blocks i).refcount ≤ 1 ∧ (s'.pool.blocks i).state = .free ∧
      ∀ k, op = .free k → s'.grants i = s.grants i ∧ s'.frees i = s.frees i + 1 := by
  have hset : ∀ j b, i ≠ j ∨ b.state ≠ .free ∧ (s.pool.blocks j).state ≠ .free →
      ((update s.pool.blocks j b i).state = .free ↔ (s.pool.blocks i).state = .free) := by
    rintro j b (hij | ⟨hb, hj⟩)
    · simp [hij]
    by_cases hij : i = j
    · subst hij
      simp [hb, hj]
    · simp [hij]
  cases hc with
  | same => exact .inl Iff.rfl
  | take j now owner hj hold =>
    by_cases hij : i = j
    · exact .inr (.inl ⟨⟨now, owner, rfl⟩, by simp [hij, MemoryPool.set, BlockSlot.take]⟩)
    · exact .inl (hset _ _ (.inl hij))
  | retain k hv hpool => exact .inl (hset _ _ (.inr ⟨by simp [BlockSlot.retain], hv.live⟩))
  | unshare k hv hmany => exact .inl (hset _ _ (.inr ⟨unshare_live hv.live, hv.live⟩))
  | release k hv hone =>
    by_cases hij : i = k.blockIndex
    · subst hij
      exact .inr (.inr ⟨hone, by simp [MemoryPool.set, BlockSlot.release], fun _ _ => by simp⟩)
    · exact .inl (hset _ _ (.inl hij))
  | evict j g hv hone =>
    by_cases hij : i = j
    · subst hij
      exact .inr (.inr ⟨hone, by simp [MemoryPool.set, BlockSlot.release], nofun⟩)
    · exact .inl (hset _ _ (.inl hij))
  | note k n hv => exact .inl (hset _ _ (.inr ⟨hv.live, hv.live⟩))

theorem History.Balance.last (h : s.Balance) (hs : s.Sound poolId)
    (hstep : History.step poolId s op = some s') (hi : i < s.pool.blockCount)
    (hlive : (s.pool.blocks i).state ≠ .free) (hfree : (s'.pool.blocks i).state = .free) :
    s.frees i + 1 = s.grants i ∧ ∀ k, op = .free k → s'.grants i = s'.frees i := by
  obtain ⟨hop, rfl⟩ := step_eq_some hstep
  obtain hsame | ⟨-, htaken⟩ | ⟨hone, -, hcount⟩ := (perform_change s hop).block i
  · exact absurd (hsame.mp hfree) hlive
  · exact absurd hfree htaken
  have hpos : (s.pool.blocks i).refcount ≠ 0 := fun hz => hlive ((hs.blocks i hi).none.mp hz)
  have hbalance := h i hi hlive
  have hlast : s.frees i + 1 = s.grants i := by omega
  exact ⟨hlast, fun k hk => (hcount k hk).1.trans (hlast.symm.trans (hcount k hk).2.symm)⟩

/-! ## Allocation -/

theorem History.Sound.freeCount (h : s.Sound poolId) :
    s.pool.freeCount = (List.range s.pool.blockCount).countP fun i =>
      (s.pool.blocks i).state == .free := by
  have hsplit : (List.range s.pool.blockCount).countP (fun _ => true) = s.pool.used + _ :=
    countP_split (r := fun i => (s.pool.blocks i).state == .free)
      (fun i => by simp [bne]) fun i hi => by simpa using hi
  rw [countP_true, length_range] at hsplit
  have hcounted := h.counted
  omega

theorem History.Sound.alloc_eq_error (h : s.Sound poolId) (now owner : Nat) :
    s.pool.alloc poolId now owner = .error .outOfMemory ↔
      ∀ i < s.pool.blockCount, (s.pool.blocks i).state ≠ .free := by
  have hzero : s.pool.freeCount = 0 ↔ ∀ i < s.pool.blockCount, (s.pool.blocks i).state ≠ .free := by
    simp [h.freeCount, countP_eq_zero]
  rw [← hzero]
  constructor
  · intro herr
    by_contra hne
    simp only [alloc, if_neg hne] at herr
    split at herr
    · rename_i hfind
      refine hne (hzero.mpr fun i hi => ?_)
      simpa using find?_range_none hfind hi
    · cases herr
  intro hz
  rw [alloc, if_pos hz]

theorem MemoryPool.alloc_error {p : MemoryPool} (h : p.alloc poolId now owner = .error err) :
    err = .outOfMemory := by
  simp only [alloc] at h
  split at h
  · exact (Except.error.inj h).symm
  split at h
  · exact (Except.error.inj h).symm
  · cases h

theorem History.Sound.alloc_ok (h : s.Sound poolId) (hi : i < s.pool.blockCount)
    (hfree : (s.pool.blocks i).state = .free) (now owner : Nat) :
    ∃ r, s.pool.alloc poolId now owner = .ok r := by
  cases halloc : s.pool.alloc poolId now owner with
  | ok r => exact ⟨r, rfl⟩
  | error err =>
    obtain rfl := MemoryPool.alloc_error halloc
    exact absurd hfree ((h.alloc_eq_error now owner).mp halloc i hi)

theorem History.Sound.disjoint (h : s.Sound poolId) (hx : x ∈ s.issued) (hy : y ∈ s.issued)
    (hne : x.1 ≠ y.1) (ha : s.pool.getPtr x.1 = some a) (hb : s.pool.getPtr y.1 = some b) :
    (s.pool.baseAddr ≤ a ∧ a + blockSize ≤ s.pool.baseAddr + s.pool.blockCount * blockSize) ∧
    (a + blockSize ≤ b ∨ b + blockSize ≤ a) := by
  obtain ⟨hvx, rfl⟩ := getPtr_eq_some.mp ha
  obtain ⟨hvy, rfl⟩ := getPtr_eq_some.mp hb
  have hidx : x.1.blockIndex ≠ y.1.blockIndex := by
    intro he
    have hgen : x.1.generation = y.1.generation := by
      rw [← hvx.generation, ← hvy.generation, he]
    have hpool := (h.issued x hx).poolId.trans (h.issued y hy).poolId.symm
    obtain ⟨⟨i, q, g⟩, e⟩ := x
    obtain ⟨⟨i', q', g'⟩, e'⟩ := y
    simp_all
  have hlt := hvx.lt
  refine ⟨⟨le_add_right _ _, ?_⟩, ?_⟩
  · have := mul_le_mul_right blockSize (succ_le_of_lt hlt)
    rw [succ_mul] at this
    omega
  rcases lt_or_gt_of_ne hidx with hlt | hlt
  · have := mul_le_mul_right blockSize (succ_le_of_lt hlt)
    rw [succ_mul] at this
    exact inl (by omega)
  have := mul_le_mul_right blockSize (succ_le_of_lt hlt)
  rw [succ_mul] at this
  exact inr (by omega)

end

/-- The books of a pool agree after every history in which no block has as many as
65535 outstanding shares. -/
theorem pool_accounts (poolId base count : Nat) {s : History}
    (hrun : Run (History.step poolId) History.Bounded (History.init base count) s) :
    (s.pool.freeCount = (List.range s.pool.blockCount).countP fun i =>
      (s.pool.blocks i).state == .free) ∧
    (∀ i < s.pool.blockCount, ((s.pool.blocks i).refcount = 0 ↔ (s.pool.blocks i).state = .free) ∧
      ((s.pool.blocks i).state = .shared ↔ 1 < (s.pool.blocks i).refcount)) ∧
    (∀ x ∈ s.issued, ∀ y ∈ s.issued, x.1 ≠ y.1 → ∀ a b,
      s.pool.getPtr x.1 = some a → s.pool.getPtr y.1 = some b →
      (s.pool.baseAddr ≤ a ∧ a + blockSize ≤ s.pool.baseAddr + s.pool.blockCount * blockSize) ∧
      (a + blockSize ≤ b ∨ b + blockSize ≤ a)) ∧
    (∀ now owner, s.pool.alloc poolId now owner = .error .outOfMemory ↔
      ∀ i < s.pool.blockCount, (s.pool.blocks i).state ≠ .free) ∧
    (∀ h s', History.step poolId s (.free h) = some s' → ∀ i < s.pool.blockCount,
      (s.pool.blocks i).state ≠ .free → (s'.pool.blocks i).state = .free →
      s'.grants i = s'.frees i) ∧
    s.pool.peakUsage = s.maxUsed := by
  have hs := sound_run hrun
  have hb := balance_run hrun
  refine ⟨hs.freeCount, fun i hi => ⟨(hs.blocks i hi).none, (hs.blocks i hi).many⟩,
    fun x hx y hy hne a b ha hb => hs.disjoint hx hy hne ha hb, hs.alloc_eq_error,
    fun h s' hstep i hi hlive hfree => (hb.last hs hstep hi hlive hfree).2 h rfl,
    (peak_run hrun).peak⟩

theorem shared_once : ∃ s s', Run (step 0) History.Bounded (init 0 2) s ∧
    step 0 s (.free ⟨0, 0, 0⟩) = some s' ∧ (s.pool.blocks 0).refcount = 1 ∧
    (s.pool.blocks 0).state = .allocated ∧ (s'.pool.blocks 0).state = .free ∧
    s.pool.peakUsage = 1 ∧ s.pool.blockCount = 2 := by
  have hbound : ∀ s : History, s.grants 0 = 1 → s.Bounded (.share ⟨0, 0, 0⟩) := by
    intro s hs
    simp only [History.Bounded, hs, maxU16]
    omega
  have hrun : Run (step 0) History.Bounded (init 0 2) _ :=
    .tail (.tail (.tail (.refl _) (a := .alloc 0 0) trivial rfl)
      (a := .share ⟨0, 0, 0⟩) (hbound _ rfl) rfl) (a := .free ⟨0, 0, 0⟩) trivial rfl
  exact ⟨_, _, hrun, rfl, by decide, by decide, by decide, by decide, by decide⟩

theorem pool_accounts_shared : ∃ s : History,
    (s.pool.blocks 0).refcount = 1 ∧ (s.pool.blocks 0).state = .allocated ∧
      s.pool.peakUsage = 1 ∧ s.pool.peakUsage = s.maxUsed := by
  obtain ⟨s, -, hrun, -, hrefs, hstate, -, hpeak, -⟩ := shared_once
  exact ⟨s, hrefs, hstate, hpeak, (pool_accounts 0 0 2 hrun).2.2.2.2.2⟩

/-! ## Shares that are not counted -/

/-- In every history that shares a block only while it has fewer than 65535 references, a
block becomes `Free` in the step that frees the last of the references it was given. -/
theorem block_kept_by_holders (poolId base count : Nat) {s s' : History} {op : Op} {i : Nat}
    (hrun : Run (History.step poolId) History.Bounded (History.init base count) s)
    (hstep : History.step poolId s op = some s') (hi : i < s.pool.blockCount)
    (hlive : (s.pool.blocks i).state ≠ .free) (hfree : (s'.pool.blocks i).state = .free) :
    s.frees i + 1 = s.grants i :=
  ((balance_run hrun).last (sound_run hrun) hstep hi hlive hfree).1

theorem block_kept_by_holders_shared : ∃ s s' : History,
    step 0 s (.free ⟨0, 0, 0⟩) = some s' ∧ (s'.pool.blocks 0).state = .free ∧
      s.frees 0 + 1 = s.grants 0 := by
  obtain ⟨s, s', hrun, hstep, -, hstate, hfree, -, hn⟩ := shared_once
  exact ⟨s, s', hstep, hfree,
    block_kept_by_holders 0 0 2 hrun hstep (by simp [hn]) (by simp [hstate]) hfree⟩

structure History.Held (s : History) (refcount grants frees : Nat) : Prop where
  run : Run (History.step 0) (fun _ _ => True) (History.init 0 1) s
  valid : s.pool.Valid ⟨0, 0, 0⟩
  refcount : (s.pool.blocks 0).refcount = refcount
  grants : s.grants 0 = grants
  frees : s.frees 0 = frees

theorem History.Held.share {s : History} (h : s.Held r g f) :
    ∃ s' : History, s'.Held (min (r + 1) maxU16) (g + 1) f := by
  have hok := share_eq_ok.mpr ⟨h.valid, rfl⟩
  have hstep : History.step 0 s (.share ⟨0, 0, 0⟩) = some _ := if_pos rfl
  simp only [perform, hok] at hstep
  refine ⟨_, .tail h.run trivial hstep, ⟨h.valid.lt, ?_, ?_⟩, ?_, ?_, h.frees⟩
  · simp [MemoryPool.set, retain]
  · simpa [MemoryPool.set, retain] using h.valid.generation
  · simp [MemoryPool.set, retain, h.refcount]
  · simp [h.grants]

theorem held_shares (n : Nat) : ∃ s : History, s.Held (min (n + 1) maxU16) (n + 1) 0 := by
  induction n with
  | zero =>
    refine ⟨_, .tail (.refl _) (a := .alloc 0 0) trivial rfl, ⟨?_, ?_, ?_⟩, ?_, ?_, ?_⟩ <;> decide
  | succ n ih =>
    obtain ⟨s, h⟩ := ih
    obtain ⟨s', h'⟩ := h.share
    refine ⟨s', ?_⟩
    convert h' using 1
    omega

theorem History.Held.freed {s : History} (h : s.Held (r + 1) g f) :
    ∃ s', Run (step 0) (fun _ _ => True) (init 0 1) s' ∧ s'.grants 0 = g ∧
      s'.frees 0 = f + (r + 1) ∧ (s'.pool.blocks 0).state = .free := by
  induction r generalizing s f with
  | zero =>
    have hstep : step 0 s (.free ⟨0, 0, 0⟩) = some _ := if_pos rfl
    simp only [perform, free_eq_ok.mpr ⟨h.valid, rfl⟩, h.refcount] at hstep
    exact ⟨_, .tail h.run trivial hstep, h.grants, by simp [h.frees],
      by simp [MemoryPool.set, release]⟩
  | succ r ih =>
    have hstep : step 0 s (.free ⟨0, 0, 0⟩) = some _ := if_pos rfl
    have hlive := unshare_live h.valid.live
    have hmany : 1 < r + 1 + 1 := by omega
    simp only [perform, free_eq_ok.mpr ⟨h.valid, rfl⟩, h.refcount, if_pos hmany,
      MemoryPool.set, update_self, if_neg hlive] at hstep
    have hheld : History.Held _ (r + 1) g (f + 1) := ⟨.tail h.run trivial hstep,
      ⟨h.valid.lt, by simpa using hlive, by simpa [unshare] using h.valid.generation⟩,
      by simp [unshare, h.refcount], h.grants, by simp [h.frees]⟩
    obtain ⟨s', hrun, hg, hf, hfree⟩ := ih hheld
    exact ⟨s', hrun, hg, by omega, hfree⟩

/-- The block is shared 65535 times, and 65535 frees take it from its last holder. -/
theorem block_lost_to_holder : ∃ s : History,
    Run (History.step 0) (fun _ _ => True) (History.init 0 1) s ∧
      s.grants 0 = maxU16 + 1 ∧ s.frees 0 = maxU16 ∧ (s.pool.blocks 0).state = .free := by
  obtain ⟨s, h⟩ := held_shares maxU16
  obtain ⟨s', hrun, hg, hf, hfree⟩ := History.Held.freed (r := maxU16 - 1) h
  exact ⟨s', hrun, hg, by rw [hf]; rfl, hfree⟩

end SlmOs.ModelMem
