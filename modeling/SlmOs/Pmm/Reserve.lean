import SlmOs.Pmm.Allocator

/-!
# Reserved ranges

The firmware's `/memreserve/` table, the table of user reserves, and
`pmm_carve_reserves`, which cuts the reserved bytes out of a region.  The
carving is exact to the byte: its segments cover the unreserved bytes of the
region and nothing else.
-/

namespace SlmOs.Pmm

open List Nat

structure Reserve where
  addr : Nat
  size : Nat
  deriving DecidableEq, Repr

def Reserve.stop (r : Reserve) : Nat := (r.addr + r.size) % wordModulus

def dtbMaxMemreserves : Nat := 8

def pmmMaxUserReserves : Nat := 2048

def pmmSplitRsvMax : Nat := dtbMaxMemreserves + pmmMaxUserReserves

structure ReserveTables where
  firmware : List Reserve
  user : List Reserve
  firmware_le : firmware.length ≤ dtbMaxMemreserves
  user_le : user.length ≤ pmmMaxUserReserves

/-- The list `pmm_add_region_split` builds in `pmm_split_rsv`. -/
def ReserveTables.reserves (t : ReserveTables) : List Reserve :=
  t.firmware ++ t.user.take (pmmSplitRsvMax - t.firmware.length)

theorem ReserveTables.reserves_eq (t : ReserveTables) : t.reserves = t.firmware ++ t.user := by
  have h₁ := t.firmware_le
  have h₂ := t.user_le
  unfold reserves
  rw [take_of_length_le (by unfold pmmSplitRsvMax; omega)]

theorem ReserveTables.length_reserves (t : ReserveTables) : t.reserves.length ≤ pmmSplitRsvMax := by
  rw [t.reserves_eq, length_append]
  exact Nat.add_le_add t.firmware_le t.user_le

/-! ## Carving -/

/-- `next_rsv_start`, `next_rsv_end` and `found` of the inner scan. -/
structure NextReserve where
  start : Nat
  stop : Nat
  found : Bool
  deriving DecidableEq, Repr

def NextReserve.consider (cursor limit : Nat) (next : NextReserve) (r : Reserve) : NextReserve :=
  if r.stop ≤ r.addr then next
  else if r.stop ≤ cursor ∨ r.addr ≥ limit then next
  else if !next.found ∨ r.addr < next.start then
    ⟨if r.addr > cursor then r.addr else cursor,
      if r.stop < limit then r.stop else limit, true⟩
  else next

def nextReserve (rsv : List Reserve) (cursor limit : Nat) : NextReserve :=
  rsv.foldl (NextReserve.consider cursor limit) ⟨limit, limit, false⟩

def carveLoop (rsv : List Reserve) (limit maxOut : Nat) :
    Nat → Nat → List (Nat × Nat) → Option (List (Nat × Nat))
  | 0, _, _ => none
  | fuel + 1, cursor, out =>
    if cursor < limit then
      let next := nextReserve rsv cursor limit
      if !next.found then
        if out.length ≥ maxOut then some out
        else some (out ++ [(cursor, limit)])
      else if next.start > cursor then
        if out.length ≥ maxOut then some out
        else
          carveLoop rsv limit maxOut fuel next.stop (out ++ [(cursor, next.start)])
      else carveLoop rsv limit maxOut fuel next.stop out
    else some out

def pmmCarveReserves (start limit : Nat) (rsv : List Reserve)
    (maxOut : Nat) : Option (List (Nat × Nat)) :=
  if maxOut = 0 then some []
  else if start ≥ limit then some []
  else if rsv.length = 0 then some [(start, limit)]
  else carveLoop rsv limit maxOut (rsv.length + 1) start []

/-! ## What one scan finds -/

def Reserved (rsv : List Reserve) (x : Nat) : Prop :=
  ∃ r ∈ rsv, r.addr ≤ x ∧ x < r.stop

instance (rsv : List Reserve) (x : Nat) : Decidable (Reserved rsv x) :=
  inferInstanceAs (Decidable (∃ r ∈ rsv, r.addr ≤ x ∧ x < r.stop))

def Reserve.Active (cursor limit : Nat) (r : Reserve) : Prop :=
  r.addr < r.stop ∧ cursor < r.stop ∧ r.addr < limit

instance (cursor limit : Nat) (r : Reserve) : Decidable (r.Active cursor limit) :=
  inferInstanceAs (Decidable (_ ∧ _ ∧ _))

def Scanned (seen : List Reserve) (cursor limit : Nat) (next : NextReserve) : Prop :=
  (next.found = false ∧ ∀ r ∈ seen, ¬r.Active cursor limit) ∨ (next.found = true ∧
      (∃ r ∈ seen, r.Active cursor limit ∧ next.start = max r.addr cursor ∧
        next.stop = min r.stop limit) ∧
      ∀ r ∈ seen, r.Active cursor limit → next.start ≤ max r.addr cursor)

private theorem consider_inactive {cursor limit : Nat} {next : NextReserve}
    (h : ¬r.Active cursor limit) : next.consider cursor limit r = next := by
  unfold NextReserve.consider
  by_cases h₁ : r.stop ≤ r.addr
  · rw [if_pos h₁]
  rw [if_neg h₁, if_pos]
  unfold Reserve.Active at h
  omega

private theorem consider_active {cursor limit : Nat} {next : NextReserve}
    (h : r.Active cursor limit) :
    next.consider cursor limit r =
      if next.found = false ∨ r.addr < next.start then
        ⟨max r.addr cursor, min r.stop limit, true⟩ else next := by
  obtain ⟨h₁, h₂, h₃⟩ := h
  have hmax : (if r.addr > cursor then r.addr else cursor) = max r.addr cursor := by
    split <;> omega
  have hmin : (if r.stop < limit then r.stop else limit) = min r.stop limit := by
    split <;> omega
  unfold NextReserve.consider
  rw [if_neg (by omega), if_neg (by omega), hmax, hmin]
  exact if_congr (by rw [Bool.not_eq_true']) rfl rfl

theorem Scanned.consider {next : NextReserve} (h : Scanned seen cursor limit next) (r : Reserve) :
    Scanned (seen ++ [r]) cursor limit (next.consider cursor limit r) := by
  by_cases hr : r.Active cursor limit
  · rw [consider_active hr]
    by_cases hnew : next.found = false ∨ r.addr < next.start
    · rw [if_pos hnew]
      refine .inr ⟨rfl, ⟨r, by simp, hr, rfl, rfl⟩, ?_⟩
      intro r' hr' hactive
      rcases mem_append.mp hr' with hold | hlast
      · -- an older entry starts no earlier than the one that was replaced
        rcases h with ⟨-, hnone⟩ | ⟨hfound, ⟨r₀, -, -, hstart, -⟩, hmin⟩
        · exact absurd hactive (hnone r' hold)
        have hle := hmin r' hold hactive
        have hlt : r.addr < next.start := by
          rcases hnew with hnew | hnew
          · exact absurd (hfound.symm.trans hnew) (by decide)
          · exact hnew
        change max r.addr cursor ≤ _
        omega
      · rw [mem_singleton.mp hlast]
    rw [if_neg hnew]
    rw [not_or, Bool.not_eq_false] at hnew
    rcases h with ⟨hnone, -⟩ | ⟨hfound, ⟨r₀, hmem, hrest⟩, hmin⟩
    · exact absurd (hnew.1.symm.trans hnone) (by decide)
    refine .inr ⟨hfound, ⟨r₀, mem_append_left _ hmem, hrest⟩, ?_⟩
    intro r' hr' hactive
    rcases mem_append.mp hr' with hold | hlast
    · exact hmin r' hold hactive
    rw [mem_singleton.mp hlast]
    omega
  rw [consider_inactive hr]
  rcases h with ⟨hfound, hnone⟩ | ⟨hfound, ⟨r₀, hmem, hrest⟩, hmin⟩
  · refine .inl ⟨hfound, fun r' hr' => ?_⟩
    rcases mem_append.mp hr' with hold | hlast
    · exact hnone r' hold
    rw [mem_singleton.mp hlast]
    exact hr
  refine .inr ⟨hfound, ⟨r₀, mem_append_left _ hmem, hrest⟩, ?_⟩
  intro r' hr' hactive
  rcases mem_append.mp hr' with hold | hlast
  · exact hmin r' hold hactive
  rw [mem_singleton.mp hlast] at hactive
  exact absurd hactive hr

theorem nextReserve_scanned (rsv : List Reserve) (cursor limit : Nat) :
    Scanned rsv cursor limit (nextReserve rsv cursor limit) := by
  have hfold : ∀ (l seen : List Reserve) (next : NextReserve), Scanned seen cursor limit next →
      Scanned (seen ++ l) cursor limit (l.foldl (NextReserve.consider cursor limit) next) := by
    intro l
    induction l with
    | nil =>
      intro seen next h
      rwa [append_nil]
    | cons r l ih =>
      intro seen next h
      rw [append_cons]
      exact ih _ _ (h.consider r)
  exact hfold rsv [] _ (.inl ⟨rfl, by simp⟩)

/-! ## The loop -/

/-- `segs` are the unreserved parts of `[lo, hi)`, from left to right. -/
structure Carved (rsv : List Reserve) (lo hi : Nat)
    (segs : List (Nat × Nat)) : Prop where
  bounds : ∀ seg ∈ segs, lo ≤ seg.1 ∧ seg.1 < seg.2 ∧ seg.2 ≤ hi
  sorted : segs.Pairwise fun a b => a.2 ≤ b.1
  exact_cover : ∀ x, (∃ seg ∈ segs, seg.1 ≤ x ∧ x < seg.2) ↔ lo ≤ x ∧ x < hi ∧ ¬Reserved rsv x

theorem Carved.nil_of_ge (h : hi ≤ lo) : Carved rsv lo hi [] where
  bounds := by simp
  sorted := List.Pairwise.nil
  exact_cover := by
    intro x
    refine iff_of_false (by simp) ?_
    omega

theorem Carved.singleton (h : lo < hi) (hfree : ∀ x, lo ≤ x → x < hi → ¬Reserved rsv x) :
    Carved rsv lo hi [(lo, hi)] where
  bounds := by
    intro seg hseg
    rw [mem_singleton.mp hseg]
    exact ⟨le_refl _, h, le_refl _⟩
  sorted := pairwise_singleton _ _
  exact_cover := by
    intro x
    constructor
    · rintro ⟨seg, hseg, h₁, h₂⟩
      rw [mem_singleton.mp hseg] at h₁ h₂
      exact ⟨h₁, h₂, hfree x h₁ h₂⟩
    rintro ⟨h₁, h₂, -⟩
    exact ⟨_, mem_singleton_self _, h₁, h₂⟩

theorem Carved.skip (hle : lo ≤ mid) (hreserved : ∀ x, lo ≤ x → x < mid → Reserved rsv x)
    (h : Carved rsv mid hi segs) : Carved rsv lo hi segs where
  bounds := fun seg hseg =>
    ⟨hle.trans (h.bounds seg hseg).1, (h.bounds seg hseg).2⟩
  sorted := h.sorted
  exact_cover := by
    intro x
    rw [h.exact_cover x]
    constructor
    · rintro ⟨h₁, h₂, h₃⟩
      exact ⟨hle.trans h₁, h₂, h₃⟩
    rintro ⟨h₁, h₂, h₃⟩
    refine ⟨?_, h₂, h₃⟩
    by_contra hlt
    exact h₃ (hreserved x h₁ (by omega))

theorem Carved.cons (hlt : lo < mid) (hle : mid ≤ hi)
    (hfree : ∀ x, lo ≤ x → x < mid → ¬Reserved rsv x)
    (h : Carved rsv mid hi segs) : Carved rsv lo hi ((lo, mid) :: segs) where
  bounds := by
    intro seg hseg
    rcases mem_cons.mp hseg with rfl | hseg
    · exact ⟨le_refl _, hlt, hle⟩
    · exact ⟨hlt.le.trans (h.bounds seg hseg).1, (h.bounds seg hseg).2⟩
  sorted := pairwise_cons.mpr ⟨fun seg hseg => (h.bounds seg hseg).1, h.sorted⟩
  exact_cover := by
    intro x
    constructor
    · rintro ⟨seg, hseg, h₁, h₂⟩
      rcases mem_cons.mp hseg with rfl | hseg
      · exact ⟨h₁, lt_of_lt_of_le h₂ hle, hfree x h₁ h₂⟩
      obtain ⟨h₃, h₄⟩ := (h.exact_cover x).mp ⟨seg, hseg, h₁, h₂⟩
      exact ⟨hlt.le.trans h₃, h₄⟩
    rintro ⟨h₁, h₂, h₃⟩
    by_cases hmid : x < mid
    · exact ⟨_, mem_cons_self, h₁, hmid⟩
    obtain ⟨seg, hseg, hx⟩ := (h.exact_cover x).mpr ⟨by omega, h₂, h₃⟩
    exact ⟨seg, mem_cons_of_mem _ hseg, hx⟩

def activeCount (rsv : List Reserve) (cursor limit : Nat) : Nat :=
  (rsv.filter fun r => r.Active cursor limit).length

theorem activeCount_lt (hmem : r ∈ rsv) (hr : r.Active cursor limit) :
    activeCount rsv r.stop limit < activeCount rsv cursor limit := by
  have hfilter : (rsv.filter fun r' => r'.Active r.stop limit) =
      (rsv.filter fun r' => r'.Active cursor limit).filter fun r' => r.stop < r'.stop := by
    rw [filter_filter]
    refine filter_congr fun r' _ => ?_
    have hcursor := hr.2.1
    rw [← Bool.decide_and]
    refine decide_eq_decide.mpr ?_
    unfold Reserve.Active
    omega
  unfold activeCount
  rw [hfilter]
  refine length_filter_lt_length_iff_exists.mpr ⟨r, ?_, by simp⟩
  exact mem_filter.mpr ⟨hmem, decide_eq_true hr⟩

theorem carveLoop_spec :
    ∀ (fuel cursor : Nat) (out : List (Nat × Nat)), activeCount rsv cursor limit < fuel →
      out.length + activeCount rsv cursor limit < maxOut →
      ∃ segs, carveLoop rsv limit maxOut fuel cursor out =
        some (out ++ segs) ∧ Carved rsv cursor limit segs := by
  intro fuel
  induction fuel with
  | zero =>
    intro cursor out hfuel _
    exact absurd hfuel (Nat.not_lt_zero _)
  | succ fuel ih =>
    intro cursor out hfuel hout
    rw [carveLoop]
    by_cases hlt : cursor < limit
    swap
    · rw [if_neg hlt]
      exact ⟨[], by rw [append_nil], Carved.nil_of_ge (by omega)⟩
    rw [if_pos hlt]
    dsimp only
    generalize hnext : nextReserve rsv cursor limit = next
    have hscan : Scanned rsv cursor limit next := hnext ▸ nextReserve_scanned rsv cursor limit
    rcases hscan with ⟨hfound, hnone⟩ | ⟨hfound, ⟨r, hmem, hr, hs, he⟩, hmin⟩
    · rw [hfound, if_pos Bool.not_false, if_neg (by omega)]
      refine ⟨_, rfl, Carved.singleton hlt fun x h₁ h₂ => ?_⟩
      rintro ⟨r, hmem, h₃, h₄⟩
      exact hnone r hmem ⟨by omega, by omega, by omega⟩
    -- the rest of the region after the reservation that was found
    have hstep : ∀ out', out'.length ≤ out.length + 1 →
        ∃ segs, carveLoop rsv limit maxOut fuel next.stop out' =
          some (out' ++ segs) ∧ Carved rsv next.stop limit segs := by
      intro out' hlen
      have hdec := activeCount_lt hmem hr
      by_cases hstop : r.stop ≤ limit
      · have heq : next.stop = r.stop := by omega
        rw [heq]
        exact ih r.stop out' (by omega) (by omega)
      -- the reservation runs past the region: the next round ends
      have heq : next.stop = limit := by omega
      obtain ⟨fuel, rfl⟩ := Nat.exists_eq_succ_of_ne_zero (show fuel ≠ 0 by omega)
      rw [heq, carveLoop, if_neg (lt_irrefl _)]
      exact ⟨[], by rw [append_nil], Carved.nil_of_ge (le_refl _)⟩
    obtain ⟨hr₁, hr₂, hr₃⟩ := hr
    have hreserved : ∀ x, next.start ≤ x → x < next.stop →
        Reserved rsv x := fun x h₁ h₂ => ⟨r, hmem, by omega, by omega⟩
    have hfree : ∀ x, cursor ≤ x → x < next.start → ¬Reserved rsv x := by
      rintro x h₁ h₂ ⟨r', hmem', h₃, h₄⟩
      have := hmin r' hmem' ⟨by omega, by omega, by omega⟩
      omega
    rw [hfound, if_neg (by simp)]
    by_cases hgap : next.start > cursor
    · rw [if_pos hgap, if_neg (by omega)]
      obtain ⟨segs, hrun, hcarved⟩ := hstep (out ++ [(cursor, next.start)]) (by simp)
      refine ⟨(cursor, next.start) :: segs, ?_, ?_⟩
      · rw [hrun, append_assoc, singleton_append]
      exact Carved.cons hgap (by omega) hfree (hcarved.skip (by omega) hreserved)
    rw [if_neg hgap]
    obtain ⟨segs, hrun, hcarved⟩ := hstep out (by omega)
    exact ⟨segs, hrun, hcarved.skip (by omega) fun x h₁ h₂ => hreserved x (by omega) h₂⟩

theorem pmmCarveReserves_spec (start limit : Nat) (hmax : rsv.length < maxOut) :
    ∃ segs, pmmCarveReserves start limit rsv maxOut = some segs ∧ Carved rsv start limit segs := by
  unfold pmmCarveReserves
  rw [if_neg (by omega)]
  by_cases hge : start ≥ limit
  · rw [if_pos hge]
    exact ⟨[], rfl, Carved.nil_of_ge hge⟩
  rw [if_neg hge]
  by_cases hnil : rsv.length = 0
  · rw [if_pos hnil]
    refine ⟨_, rfl, Carved.singleton (by omega) fun x _ _ => ?_⟩
    rw [eq_nil_of_length_eq_zero hnil]
    rintro ⟨r, hr, -⟩
    exact absurd hr not_mem_nil
  have hcount : activeCount rsv start limit ≤ rsv.length := length_filter_le _ _
  have hroom : ([] : List (Nat × Nat)).length + activeCount rsv start limit < maxOut := by
    rw [length_nil]
    omega
  obtain ⟨segs, hrun, hcarved⟩ := carveLoop_spec (rsv.length + 1) start []
    (Nat.lt_succ_of_le hcount) hroom
  rw [if_neg hnil]
  exact ⟨segs, hrun, hcarved⟩

theorem reserved_iff (hwrap : ∀ r ∈ rsv, r.addr + r.size < wordModulus) (x : Nat) :
    Reserved rsv x ↔ ∃ r ∈ rsv, r.addr ≤ x ∧ x < r.addr + r.size := by
  refine exists_congr fun r => and_congr_right fun hr => ?_
  rw [Reserve.stop, Nat.mod_eq_of_lt (hwrap r hr)]

/--
Whatever the reservations look like, the segments are the bytes of the region
that no reservation holds, in ascending order and with none left out.
-/
theorem pmmCarveReserves_exact (start limit maxOut : Nat) (rsv : List Reserve)
    (hmax : rsv.length + 1 ≤ maxOut) (hwrap : ∀ r ∈ rsv, r.addr + r.size < wordModulus) :
    ∃ segs, pmmCarveReserves start limit rsv maxOut = some segs ∧
      segs.Pairwise (fun a b => a.2 ≤ b.1) ∧
      (∀ seg ∈ segs, seg.1 < seg.2) ∧
      ∀ x, (∃ seg ∈ segs, seg.1 ≤ x ∧ x < seg.2) ↔ (start ≤ x ∧ x < limit) ∧
          ¬∃ r ∈ rsv, r.addr ≤ x ∧ x < r.addr + r.size := by
  obtain ⟨segs, hrun, hcarved⟩ := pmmCarveReserves_spec start limit hmax
  refine ⟨segs, hrun, hcarved.sorted, fun seg hseg => (hcarved.bounds seg hseg).2.1, ?_⟩
  intro x
  rw [hcarved.exact_cover x, reserved_iff hwrap, and_assoc]

theorem pmmCarveReserves_exact_unsorted : pmmCarveReserves 10 50
        [⟨30, 10⟩, ⟨0, 12⟩, ⟨20, 0⟩, ⟨32, 3⟩, ⟨90, 5⟩, ⟨35, 7⟩] 7 =
      some [(12, 30), (42, 50)] ∧
    ∀ x, (∃ seg ∈ [(12, 30), (42, 50)], seg.1 ≤ x ∧ x < seg.2) ↔ (10 ≤ x ∧ x < 50) ∧
        ¬∃ r ∈ [(⟨30, 10⟩ : Reserve), ⟨0, 12⟩, ⟨20, 0⟩, ⟨32, 3⟩, ⟨90, 5⟩,
          ⟨35, 7⟩], r.addr ≤ x ∧ x < r.addr + r.size := by
  have hrun : pmmCarveReserves 10 50 [⟨30, 10⟩, ⟨0, 12⟩, ⟨20, 0⟩, ⟨32, 3⟩, ⟨90, 5⟩, ⟨35, 7⟩] 7 =
        some [(12, 30), (42, 50)] := by decide
  refine ⟨hrun, ?_⟩
  obtain ⟨segs, hsegs, -, -, hcover⟩ := pmmCarveReserves_exact 10 50 7
    [⟨30, 10⟩, ⟨0, 12⟩, ⟨20, 0⟩, ⟨32, 3⟩, ⟨90, 5⟩, ⟨35, 7⟩] (by decide)
    (by decide)
  rw [hrun, Option.some.injEq] at hsegs
  rw [hsegs]
  exact hcover

/-! ## Lists of extents -/

end SlmOs.Pmm
