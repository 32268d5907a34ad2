import SlmOs.ModelMem.Accounting

/-!
# Handles of blocks that are gone

A handle carries eight bits of its block's generation, so after the block has been
freed or evicted the handle is rejected until the block is in use again with the same
eight bits.
-/

namespace SlmOs.ModelMem

open Foundation BlockSlot MemoryPool History

theorem History.Names.valid_iff {poolId : Nat} {s : History} (hs : s.Sound poolId)
    (hn : s.Names poolId h e) :
    s.pool.Valid h ↔ (s.pool.blocks h.blockIndex).state ≠ .free ∧
      256 ∣ s.epoch h.blockIndex - e := by
  have hgen := (hs.blocks _ hn.lt).generation
  have hdvd : s.epoch h.blockIndex % 256 = e % 256 ↔ 256 ∣ s.epoch h.blockIndex - e :=
    ⟨fun he => (Nat.modEq_iff_dvd' hn.epoch).mp he.symm,
      fun hd => ((Nat.modEq_iff_dvd' hn.epoch).mpr hd).symm⟩
  rw [← hdvd]
  constructor
  · rintro ⟨hlt, hlive, hv⟩
    exact ⟨hlive, by rw [← hgen, hv, hn.generation]⟩
  rintro ⟨hlive, he⟩
  exact ⟨hn.lt, hlive, by rw [hgen, he, hn.generation]⟩

/-! ## Wearing a block out -/

theorem step_alloc_single (hs : s.Sound poolId) (hone : s.pool.blockCount = 1)
    (hfree : (s.pool.blocks 0).state = .free) :
    ∃ s', step poolId s (.alloc 0 0) = some s' ∧ s'.pool.blockCount = 1 ∧
      s'.pool.blocks 0 = (s.pool.blocks 0).take 0 0 ∧ s'.epoch = s.epoch ∧
      s'.pool.evictionsTotal = s.pool.evictionsTotal ∧
      s'.reclaimed = s.reclaimed ∧
      s'.issued = (⟨0, poolId, (s.pool.blocks 0).generation⟩, s.epoch 0) :: s.issued := by
  obtain ⟨r, halloc⟩ := hs.alloc_ok (by omega) hfree 0 0
  obtain ⟨i, hi, -, rfl⟩ := alloc_eq_ok halloc
  obtain rfl : i = 0 := by omega
  refine ⟨_, if_pos rfl, ?_⟩
  simp only [History.perform, halloc]
  exact ⟨hone, by simp [MemoryPool.set], trivial, rfl, trivial, trivial⟩

theorem step_free_single (poolId : Nat) (hone : s.pool.blockCount = 1)
    (hlive : (s.pool.blocks 0).state ≠ .free) (hrefs : (s.pool.blocks 0).refcount = 1) :
    ∃ s', step poolId s (.free ⟨0, poolId, (s.pool.blocks 0).generation⟩) =
        some s' ∧ s'.pool.blockCount = 1 ∧ (s'.pool.blocks 0).state = .free ∧
      s'.epoch 0 = s.epoch 0 + 1 ∧ s'.issued = s.issued := by
  have hv : s.pool.Valid ⟨0, poolId, (s.pool.blocks 0).generation⟩ := ⟨by simp [hone], hlive, rfl⟩
  have hfree := free_eq_ok.mpr ⟨hv, rfl⟩
  rw [if_neg (by simp [hrefs])] at hfree
  refine ⟨_, if_pos (by simp [Op.goesTo]), ?_⟩
  simp only [perform, hfree]
  exact ⟨hone, by simp [MemoryPool.set, release], by simp [MemoryPool.set, release], trivial⟩

theorem worn_out (n : Nat) : ∃ s, Run (step 0) (fun _ _ => True) (init 0 1) s ∧
      s.pool.blockCount = 1 ∧ (s.pool.blocks 0).state = .free ∧ s.epoch 0 = n ∧
      (0 < n → (⟨0, 0, 0⟩, 0) ∈ s.issued) := by
  induction n with
  | zero => exact ⟨_, .refl _, rfl, rfl, rfl, fun h => absurd h (lt_irrefl 0)⟩
  | succ n ih =>
    obtain ⟨s, hrun, hone, hfree, hepoch, hissued⟩ := ih
    have hs := sound_run hrun
    obtain ⟨s₁, hstep₁, hone₁, hblock, hepoch₁, -, -, hissued₁⟩ := step_alloc_single hs hone hfree
    obtain ⟨s₂, hstep₂, hone₂, hfree₂, hepoch₂, hissued₂⟩ :=
      step_free_single 0 hone₁ (by simp [hblock, take]) (by simp [hblock, take])
    refine ⟨s₂, .tail (.tail hrun trivial hstep₁) trivial hstep₂, hone₂, hfree₂,
      by rw [hepoch₂, hepoch₁, hepoch], fun _ => ?_⟩
    rw [hissued₂, hissued₁]
    rcases Nat.eq_zero_or_pos n with hz | hpos
    · have hgen := (hs.blocks 0 (by omega)).generation
      rw [hgen, hepoch, hz]
      exact List.mem_cons_self
    · exact List.mem_cons_of_mem _ (hissued hpos)

/-- The handle of block 0, given out again after `n` rounds. -/
theorem regiven {n : Nat} (hn : 256 ∣ n) : ∃ s, Run (step 0) (fun _ _ => True) (init 0 1) s ∧
    (⟨0, 0, 0⟩, 0) ∈ s.issued ∧ s.epoch 0 = n ∧ ∀ u, s.pool.accepts ⟨0, 0, 0⟩ u = true := by
  obtain ⟨s, hrun, hone, hfree, hepoch, hissued⟩ := worn_out n
  have hs := sound_run hrun
  obtain ⟨s', hstep, hone', hblock, hepoch', -, -, hissued'⟩ := step_alloc_single hs hone hfree
  have hgen : (s.pool.blocks 0).generation = 0 := by
    rw [(hs.blocks 0 (by omega)).generation, hepoch, Nat.mod_eq_zero_of_dvd hn]
  refine ⟨s', .tail hrun trivial hstep, ?_, by rw [hepoch', hepoch], fun u => ?_⟩
  · rw [hissued', hgen, hepoch]
    rcases Nat.eq_zero_or_pos n with rfl | hpos
    · exact List.mem_cons_self
    · exact List.mem_cons_of_mem _ (hissued hpos)
  refine accepts_iff.mpr ⟨by simp [hone'], ?_, ?_⟩
  · simp [hblock, take]
  · simp [hblock, take, hgen]

/-- In every history a handle that was given out is rejected, whatever it is used for,
exactly if its block is `Free` or has been recycled since a number of times that is
not a multiple of 256. -/
theorem handle_rejected_iff (poolId base count : Nat) {s : History}
    (hrun : Run (step poolId) (fun _ _ => True) (init base count) s)
    {h : ModelHandle} {e : Nat} (hissued : (h, e) ∈ s.issued) (u : Use) :
    s.pool.accepts h u = false ↔ (s.pool.blocks h.blockIndex).state = .free ∨
        ¬ 256 ∣ s.epoch h.blockIndex - e := by
  have hs := sound_run hrun
  have hvalid := (hs.issued _ hissued).valid_iff hs
  rw [← Bool.not_eq_true, accepts_iff, hvalid, not_and_or, not_not]

/-- A handle is used after its block was freed. -/
theorem handle_rejected_when_free : ∃ s : History, (⟨0, 0, 0⟩, 0) ∈ s.issued ∧ 0 < s.epoch 0 ∧
      s.pool.accepts ⟨0, 0, 0⟩ .getPtr = false := by
  obtain ⟨s, hrun, -, hfree, hepoch, hissued⟩ := worn_out 1
  have hmem := hissued Nat.one_pos
  exact ⟨s, hmem, by omega, (handle_rejected_iff 0 0 1 hrun hmem .getPtr).mpr (Or.inl hfree)⟩

/-- After 256 rounds the first handle names the new owner's block. -/
theorem dead_handle_accepted : ∃ s : History, Run (step 0) (fun _ _ => True) (init 0 1) s ∧
      (⟨0, 0, 0⟩, 0) ∈ s.issued ∧ 0 < s.epoch 0 ∧
      ∀ u, s.pool.accepts ⟨0, 0, 0⟩ u = true := by
  obtain ⟨s, hrun, hissued, hepoch, hall⟩ := regiven (Nat.dvd_refl 256)
  exact ⟨s, hrun, hissued, by omega, hall⟩

/-! ## Setting the pool up again -/

/-- `model_mem_reinit`: nothing of the pool is kept.  `fresh` is where the new pool is and
how many blocks it has, if there is memory for it. -/
def modelMemReinit (fresh : Option (Nat × Nat)) : History :=
  match fresh with
  | some (base, count) => .init base count
  | none => .init 0 0

theorem sound_reinit (hrun : Run (step poolId) (fun _ _ => True) (modelMemReinit fresh) s) :
    s.Sound poolId := by
  cases fresh with
  | none | some f => exact sound_run hrun

/-- A handle from before is rejected exactly if its block is not there or `Free`, or has
been recycled in the new pool a number of times that differs, modulo 256, from the
number of times it had been when the handle was given out. -/
theorem old_handle_rejected_iff (poolId base count : Nat) {s s' : History}
    (hrun : Run (step poolId) (fun _ _ => True) (init base count) s) {h : ModelHandle} {e : Nat}
    (hissued : (h, e) ∈ s.issued) (fresh : Option (Nat × Nat))
    (hrun' : Run (step poolId) (fun _ _ => True) (modelMemReinit fresh) s') (u : Use) :
    s'.pool.accepts h u = false ↔ s'.pool.blockCount ≤ h.blockIndex ∨
        (s'.pool.blocks h.blockIndex).state = .free ∨
        s'.epoch h.blockIndex % 256 ≠ e % 256 := by
  have hnames := (sound_run hrun).issued _ hissued
  have hs := sound_reinit hrun'
  rw [← Bool.not_eq_true, accepts_iff, ← Nat.not_lt, ← hnames.generation]
  constructor
  · intro hinvalid
    by_contra hno
    simp only [not_or, not_not] at hno
    obtain ⟨hlt, hlive, hgen⟩ := hno
    exact hinvalid ⟨hlt, hlive, ((hs.blocks _ hlt).generation).trans hgen⟩
  rintro hout ⟨hlt, hlive, hgen⟩
  have hepoch := (hs.blocks _ hlt).generation
  rcases hout with hnot | hfree | hne
  · exact hnot hlt
  · exact hlive hfree
  · exact hne (hepoch.symm.trans hgen)

theorem old_handle_rejected_empty : ∃ s : History, (⟨0, 0, 0⟩, 0) ∈ s.issued ∧
    (modelMemReinit none).pool.accepts ⟨0, 0, 0⟩ .getPtr = false := by
  obtain ⟨s, hrun, hissued, -, -⟩ := regiven (Nat.dvd_zero 256)
  exact ⟨s, hissued,
    (old_handle_rejected_iff 0 0 1 hrun hissued none (.refl _) .getPtr).mpr (Or.inl (by decide))⟩

theorem old_handle_accepted : ∃ s s' : History,
    Run (step 0) (fun _ _ => True) (init 0 1) s ∧ (⟨0, 0, 0⟩, 0) ∈ s.issued ∧
      Run (step 0) (fun _ _ => True) (modelMemReinit (some (0, 1))) s' ∧
      ∀ u, s'.pool.accepts ⟨0, 0, 0⟩ u = true := by
  obtain ⟨s, hrun, hissued, -, hall⟩ := regiven (Nat.dvd_zero 256)
  exact ⟨s, s, hrun, hissued, hrun, hall⟩

end SlmOs.ModelMem
