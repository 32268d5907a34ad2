import SlmOs.Vmm.Mapping

/-!
# The window of the buffer allocator

`try_slow_path` of `kernel/mm/kbuf.c` takes addresses from a window that only grows,
installs the L2 tables for them and maps 2 MB chunks.  The loop over the tables steps by
1 GB from where the window is.
-/

namespace SlmOs.Kbuf

open Vmm Function Nat

def kbufVaBase : Nat := 0xFFFFFF8800000000
def kbufVaLimit : Nat := 0xFFFFFF9000000000
def chunkBytes : Nat := 2 * 1024 * 1024
def maxChunksPerRegion : Nat := 2048

inductive L1Entry where
  | invalid
  | table
  | block
  deriving DecidableEq

structure Window where
  l1 : Nat → L1Entry
  /-- The 2 MB blocks, by number, whose L2 entry is valid. -/
  mapped : Nat → Bool
  nextVa : Nat

/-- Whether `pmm_alloc_pages` succeeds, for the tables and for the chunks in turn. -/
structure Supply where
  table : Nat → Bool
  chunk : Nat → Bool

inductive SlowErr where
  | tooManyChunks
  | outOfVa
  | l2Block
  | l2NoPage
  | pmmExhaustion (chunk : Nat)
  | vmmMapFail (chunk : Nat)
  deriving DecidableEq

namespace Window

def ensureKernelL2Table (w : Window) (va : Nat) (page : Bool) : Window × Option SlowErr :=
  match w.l1 (l1Index va) with
  | .table => (w, none)
  | .block => (w, some .l2Block)
  | .invalid =>
    if page then ({ w with l1 := update w.l1 (l1Index va) .table }, none)
    else (w, some .l2NoPage)

def mapBlock (w : Window) (va : Nat) : Option Window :=
  if w.l1 (l1Index va) ≠ .table then none
  else if w.mapped (va / chunkBytes) then none
  else some { w with mapped := update w.mapped (va / chunkBytes) true }

def unmapBlock (w : Window) (va : Nat) : Window :=
  { w with mapped := update w.mapped (va / chunkBytes) false }

end Window

def roundUpChunk (bytes : Nat) : Nat := (bytes + chunkBytes - 1) / chunkBytes * chunkBytes

def ensureTables (sup : Supply) (va total : Nat) (k : Nat) (w : Window) : Window × Option SlowErr :=
  if k * l1BlockSize < total then
    match w.ensureKernelL2Table (va + k * l1BlockSize) (sup.table k) with
    | (w, none) => ensureTables sup va total (k + 1) w
    | (w, some e) => (w, some e)
  else (w, none)
termination_by total - k * l1BlockSize
decreasing_by simp only [l1BlockSize] at *; omega

def unmapChunks (w : Window) (va i : Nat) : Window :=
  (List.range i).foldl (fun w j => w.unmapBlock (va + j * chunkBytes)) w

/-- The loop over the chunks, from chunk `i` on, with `n` of them to go. -/
def mapChunks (sup : Supply) (va : Nat) : Nat → Nat → Window → Window × Option SlowErr
  | _, 0, w => (w, none)
  | i, n + 1, w =>
    if sup.chunk i then
      match w.mapBlock (va + i * chunkBytes) with
      | some w => mapChunks sup va (i + 1) n w
      | none => (unmapChunks w va i, some (.vmmMapFail i))
    else (unmapChunks w va i, some (.pmmExhaustion i))

def trySlowPath (sup : Supply) (w : Window) (total : Nat) : Window × Option SlowErr :=
  let n := total / chunkBytes
  if n = 0 ∨ n > maxChunksPerRegion then (w, some .tooManyChunks)
  else if w.nextVa + total > kbufVaLimit then (w, some .outOfVa)
  else
    match ensureTables sup w.nextVa total 0 w with
    | (w, some e) => (w, some e)
    | (w, none) =>
      match mapChunks sup w.nextVa 0 n w with
      | (w, none) => ({ w with nextVa := w.nextVa + total }, none)
      | (w, some e) => (w, some e)

/-! ## The tables -/

structure Window.Fresh (w : Window) : Prop where
  start : kbufVaBase ≤ w.nextVa
  aligned : w.nextVa % chunkBytes = 0
  noBlock : ∀ va, kbufVaBase ≤ va → va < kbufVaLimit → w.l1 (l1Index va) ≠ .block
  unmapped : ∀ b, w.nextVa / chunkBytes ≤ b → w.mapped b = false

def Visits (va total k i : Nat) : Prop :=
  ∃ k' ≥ k, k' * l1BlockSize < total ∧ i = l1Index (va + k' * l1BlockSize)

/-- The loop gives up for want of a page, or ends with a table wherever it has been. -/
def Ensured (sup : Supply) (va total k : Nat) (w : Window) (r : Window × Option SlowErr) : Prop :=
  r.1.mapped = w.mapped ∧ r.1.nextVa = w.nextVa ∧
    (r.2 = none ∧ (∀ i, r.1.l1 i = .table ↔ w.l1 i = .table ∨ Visits va total k i) ∨
      r.2 = some .l2NoPage ∧ ∃ k', sup.table k' = false)

section

variable {sup : Supply} {w w' : Window} {va total k i n x : Nat} {e : SlowErr}

theorem ensureKernelL2Table_cases (w : Window) (page : Bool) (hblock : w.l1 (l1Index va) ≠ .block) :
    (∃ w', w.ensureKernelL2Table va page = (w', none) ∧ w'.mapped = w.mapped ∧
      w'.nextVa = w.nextVa ∧ w'.l1 = update w.l1 (l1Index va) .table) ∨
    (page = false ∧ w.ensureKernelL2Table va page = (w, some .l2NoPage)) := by
  unfold Window.ensureKernelL2Table
  cases hentry : w.l1 (l1Index va) with
  | table => exact .inl ⟨w, rfl, rfl, rfl, by rw [← hentry, update_eq_self]⟩
  | block => exact absurd hentry hblock
  | invalid =>
    cases page with
    | true => exact .inl ⟨_, rfl, rfl, rfl, rfl⟩
    | false => exact .inr ⟨rfl, rfl⟩

theorem visits_iff (hk : k * l1BlockSize < total) : Visits va total k i ↔
    i = l1Index (va + k * l1BlockSize) ∨ Visits va total (k + 1) i := by
  constructor
  · rintro ⟨k', hge, hlt, rfl⟩
    rcases eq_or_lt_of_le hge with rfl | hlt'
    · exact .inl rfl
    · exact .inr ⟨k', hlt', hlt, rfl⟩
  rintro (rfl | ⟨k', hge, hlt, rfl⟩)
  · exact ⟨k, le_rfl, hk, rfl⟩
  · exact ⟨k', by omega, hlt, rfl⟩

theorem ensureTables_ensured (sup : Supply) (va total k : Nat) (w : Window)
    (hblock : ∀ i, Visits va total k i → w.l1 i ≠ .block) :
    Ensured sup va total k w (ensureTables sup va total k w) := by
  fun_induction ensureTables sup va total k w with
  | case1 k w hk w₁ hensure ih =>
    rcases ensureKernelL2Table_cases w (sup.table k)
        (hblock _ ((visits_iff hk).mpr (.inl rfl))) with ⟨w₂, hok, hmapped, hnext, hl1⟩ | ⟨-, hno⟩
    · obtain ⟨rfl, -⟩ := Prod.mk.inj (hensure.symm.trans hok)
      have hstep : ∀ i, w₁.l1 i = if i = l1Index (va + k * l1BlockSize) then .table else w.l1 i :=
        fun i => by rw [hl1, update_apply]
      obtain ⟨hmapped', hnext', hres⟩ := ih fun i hi => by
        rw [hstep]
        split
        · simp
        · exact hblock i ((visits_iff hk).mpr (.inr hi))
      refine ⟨hmapped'.trans hmapped, hnext'.trans hnext, hres.imp_left ?_⟩
      rintro ⟨hr, htables⟩
      refine ⟨hr, fun i => ?_⟩
      rw [htables, hstep, visits_iff hk]
      by_cases hi : i = l1Index (va + k * l1BlockSize) <;> simp [hi]
    · cases hensure.symm.trans hno
  | case2 k w hk w₁ e hensure =>
    rcases ensureKernelL2Table_cases w (sup.table k)
        (hblock _ ((visits_iff hk).mpr (.inl rfl))) with ⟨w₂, hok, -⟩ | ⟨hpage, hno⟩
    · cases hensure.symm.trans hok
    cases hensure.symm.trans hno
    exact ⟨rfl, rfl, .inr ⟨rfl, k, hpage⟩⟩
  | case3 k w hk =>
    refine ⟨rfl, rfl, .inl ⟨rfl, fun i => (or_iff_left ?_).symm⟩⟩
    rintro ⟨k', hge, hlt, -⟩
    exact hk (lt_of_le_of_lt (mul_le_mul_right _ hge) hlt)

theorem Window.Fresh.ensured (hw : w.Fresh) (hfit : w.nextVa + total ≤ kbufVaLimit) (sup : Supply) :
    Ensured sup w.nextVa total 0 w (ensureTables sup w.nextVa total 0 w) := by
  refine ensureTables_ensured sup w.nextVa total 0 w ?_
  rintro i ⟨k', -, hlt, rfl⟩
  exact hw.noBlock _ (le_trans hw.start (le_add_right _ _)) (by omega)

/-! ## The range of a request -/

/-- Every L1 entry of the range has its table before a chunk is mapped, and the request
fails only for lack of pages. -/
def Covered (w : Window) (total : Nat) : Prop :=
  ∀ sup, (∀ w', ensureTables sup w.nextVa total 0 w = (w', none) → ∀ va, w.nextVa ≤ va →
      va < w.nextVa + total → w'.l1 (l1Index va) = .table) ∧
    ∀ e, (trySlowPath sup w total).2 = some e → e = .l2NoPage ∨ ∃ i, e = .pmmExhaustion i

/-- The last L1 entry of the range is one that the loop visits, or has its table. -/
def Reaches (w : Window) (total : Nat) : Prop :=
  w.nextVa % l1BlockSize + total ≤ (total + l1BlockSize - 1) / l1BlockSize * l1BlockSize ∨
    w.l1 (l1Index (w.nextVa + total - 1)) = .table

theorem visits_or_last (hva : va ≤ x) (hlt : x < va + total) :
    Visits va total 0 (l1Index x) ∨ l1Index x = l1Index (va + total - 1) := by
  by_cases hlast : x / l1BlockSize < (va + total - 1) / l1BlockSize
  · refine .inl ⟨x / l1BlockSize - va / l1BlockSize, zero_le _, ?_, ?_⟩
    · simp only [l1BlockSize] at hlast ⊢
      omega
    · simp only [l1Index_eq, l1BlockSize]
      omega
  right
  simp only [l1Index_eq, l1BlockSize] at hlast ⊢
  omega

theorem visits_last (hstart : kbufVaBase ≤ va) (hfit : va + total ≤ kbufVaLimit)
    (hpos : 0 < total) : Visits va total 0 (l1Index (va + total - 1)) ↔
      va % l1BlockSize + total ≤ (total + l1BlockSize - 1) / l1BlockSize * l1BlockSize := by
  constructor
  · rintro ⟨k, -, hlt, heq⟩
    simp only [l1Index_eq, l1BlockSize, kbufVaBase, kbufVaLimit] at *
    omega
  intro hreach
  refine ⟨(va + total - 1) / l1BlockSize - va / l1BlockSize, zero_le _, ?_, ?_⟩
  · simp only [l1BlockSize] at hreach ⊢
    omega
  simp only [l1Index_eq, l1BlockSize]
  omega

theorem tables_iff (hw : w.Fresh) (hfit : w.nextVa + total ≤ kbufVaLimit) (hpos : 0 < total)
    (hens : ensureTables sup w.nextVa total 0 w = (w', none)) :
    (∀ va, w.nextVa ≤ va → va < w.nextVa + total → w'.l1 (l1Index va) = .table) ↔
      Reaches w total := by
  have hensured := hw.ensured hfit sup
  rw [hens] at hensured
  obtain ⟨-, -, ⟨-, htables⟩ | ⟨hno, -⟩⟩ := hensured
  · rw [Reaches, ← visits_last hw.start hfit hpos, or_comm, ← htables]
    refine ⟨fun h => h _ (by omega) (by omega), fun hlast va hva hlt => ?_⟩
    rcases visits_or_last hva hlt with hvisit | heq
    · exact (htables _).mpr (.inr hvisit)
    rw [heq]
    exact hlast
  · cases hno

theorem reaches_of_covered (hw : w.Fresh) (hfit : w.nextVa + total ≤ kbufVaLimit)
    (hpos : 0 < total) (hcov : Covered w total) : Reaches w total := by
  have hensured := hw.ensured hfit ⟨fun _ => true, fun _ => true⟩
  rcases hens : ensureTables ⟨fun _ => true, fun _ => true⟩ w.nextVa total 0 w with ⟨w', r⟩
  rw [hens] at hensured
  obtain ⟨-, -, ⟨rfl, -⟩ | ⟨-, k, hk⟩⟩ := hensured
  · exact (tables_iff hw hfit hpos hens).mp ((hcov _).1 w' hens)
  · cases hk

/-! ## The chunks -/

theorem mapChunks_fails (n i : Nat) (w : Window)
    (htable : ∀ j, i ≤ j → j < i + n → w.l1 (l1Index (va + j * chunkBytes)) = .table)
    (hfree : ∀ j, i ≤ j → j < i + n → w.mapped (va / chunkBytes + j) = false)
    (h : (mapChunks sup va i n w).2 = some e) : ∃ j, e = .pmmExhaustion j := by
  induction n generalizing i w with
  | zero => cases h
  | succ n ih =>
    have hnumber : (va + i * chunkBytes) / chunkBytes = va / chunkBytes + i :=
      add_mul_div_right _ _ (by decide)
    rw [mapChunks] at h
    split at h
    · have hmap : w.mapBlock (va + i * chunkBytes) = some
          { w with mapped := update w.mapped (va / chunkBytes + i) true } := by
        simp [Window.mapBlock, hnumber, htable i le_rfl (by omega), hfree i le_rfl (by omega)]
      simp only [hmap] at h
      refine ih (i + 1) _ ?_ ?_ h
      · exact fun j hj hlt => htable j (by omega) (by omega)
      intro j hj hlt
      dsimp only
      rw [update_of_ne (by omega)]
      exact hfree j (by omega) (by omega)
    · exact ⟨i, (Option.some.inj h).symm⟩

theorem Reaches.fails (hw : w.Fresh) (hfit : w.nextVa + n * chunkBytes ≤ kbufVaLimit)
    (hreach : Reaches w (n * chunkBytes)) (hpos : 0 < n) (hmax : n ≤ maxChunksPerRegion)
    (he : (trySlowPath sup w (n * chunkBytes)).2 = some e) :
    e = .l2NoPage ∨ ∃ i, e = .pmmExhaustion i := by
  have hensured := hw.ensured hfit sup
  unfold trySlowPath at he
  dsimp only at he
  rw [Nat.mul_div_cancel n (by decide), if_neg (by omega), if_neg (Nat.not_lt.mpr hfit)] at he
  rcases hens : ensureTables sup w.nextVa (n * chunkBytes) 0 w with ⟨w', r⟩
  rw [hens] at he hensured
  obtain ⟨hmapped, hnext, ⟨rfl, -⟩ | ⟨rfl, -⟩⟩ := hensured
  · have htables := (tables_iff hw hfit (Nat.mul_pos hpos (by decide)) hens).mpr hreach
    refine .inr (mapChunks_fails n 0 w' (fun j _ hj => htables _ (Nat.le_add_right _ _) ?_)
      (fun j _ _ => ?_) (?_ : (mapChunks sup w.nextVa 0 n w').2 = some e))
    · exact Nat.add_lt_add_left (Nat.mul_lt_mul_of_pos_right (by omega) (by decide)) _
    · rw [hmapped]
      exact hw.unmapped _ (Nat.le_add_right _ _)
    dsimp only at he hnext
    rw [hnext] at he
    generalize mapChunks sup w.nextVa 0 n w' = result at he ⊢
    obtain ⟨w₂, r₂⟩ := result
    cases r₂ with
    | none => cases he
    | some e₂ => exact he
  · exact .inl (Option.some.inj he).symm

end

/-- A request that fits the window is covered exactly if it has at most 2048 chunks and
the loop over the tables gets to the last of them, or that table is there. -/
theorem slow_path_covers_iff {w : Window} (hw : w.Fresh) (bytes : Nat) (hpos : 0 < bytes)
    (hfit : w.nextVa + roundUpChunk bytes ≤ kbufVaLimit) :
    Covered w (roundUpChunk bytes) ↔
      roundUpChunk bytes ≤ maxChunksPerRegion * chunkBytes ∧ Reaches w (roundUpChunk bytes) := by
  have hchunks : 0 < (bytes + chunkBytes - 1) / chunkBytes := by
    simp only [chunkBytes]
    omega
  unfold roundUpChunk at hfit ⊢
  generalize (bytes + chunkBytes - 1) / chunkBytes = n at hfit hchunks ⊢
  rw [Nat.mul_le_mul_right_iff (by decide)]
  constructor
  · intro hcov
    refine ⟨?_, reaches_of_covered hw hfit (Nat.mul_pos hchunks (by decide)) hcov⟩
    by_contra hmany
    rcases (hcov ⟨fun _ => true, fun _ => true⟩).2 .tooManyChunks (by
      rw [trySlowPath, Nat.mul_div_cancel n (by decide)]
      simp [Nat.not_le.mp hmany]) with h | ⟨i, h⟩ <;> cases h
  rintro ⟨hmany, hreach⟩ sup
  refine ⟨fun w' hens => (tables_iff hw hfit (Nat.mul_pos hchunks (by decide)) hens).mpr hreach,
    fun e he => ?_⟩
  exact hreach.fails hw hfit hchunks hmany he

def emptyWindow : Window := ⟨fun _ => .invalid, fun _ => false, kbufVaBase⟩

theorem emptyWindow_fresh (nextVa : Nat) (h : kbufVaBase ≤ nextVa)
    (ha : nextVa % chunkBytes = 0) : { emptyWindow with nextVa := nextVa }.Fresh :=
  ⟨h, ha, fun _ _ _ => nofun, fun _ _ => rfl⟩

theorem slow_path_covers_iff_first : Covered emptyWindow (roundUpChunk 1) :=
  (slow_path_covers_iff (emptyWindow_fresh kbufVaBase le_rfl (by decide +kernel)) 1
    (by decide) (by decide +kernel)).mpr ⟨by decide +kernel, .inl (by decide +kernel)⟩

/-- 2 MB have been given out, and 1 GB more is asked for: the last chunk is in the next
L1 entry. -/
theorem last_table_missed : ∃ w : Window, w.Fresh ∧
    w.nextVa + roundUpChunk (1024 * 1024 * 1024) ≤ kbufVaLimit ∧
    ¬ Covered w (roundUpChunk (1024 * 1024 * 1024)) := by
  have hw := emptyWindow_fresh (kbufVaBase + chunkBytes) (le_add_right _ _) (by decide +kernel)
  have hfit : kbufVaBase + chunkBytes + roundUpChunk (1024 * 1024 * 1024) ≤ kbufVaLimit := by
    decide +kernel
  refine ⟨_, hw, hfit, fun hcov => ?_⟩
  rcases reaches_of_covered hw hfit (by decide +kernel) hcov with hreach | hlast
  · exact absurd hreach (by decide +kernel)
  · cases hlast

end SlmOs.Kbuf
