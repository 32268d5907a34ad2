import SlmOs.Onnx.Load

/-!
# ONNX loading and its loops

Every loop of the parser comes to an end: its iterators go forward with each item and the
loop ends with the first error.  The loop over `int64_data` in `prepare_onnx_payload` goes
on after an error, which leaves its iterator where it is; it ends exactly when no integer
that it comes to is cut.
-/

namespace SlmOs.Onnx

open Foundation ModelMem Loader List TensorInfo Copy Nat

/-! ## Whole integers and cut ones -/

def IsVarint (b : Bytes) : Prop :=
  ∃ front last, b = front ++ [last] ∧ (∀ x ∈ front, endsVarint x = false) ∧
    endsVarint last = true ∧ front.length < maxVarintBytes

def IsCut (b : Bytes) : Prop := b ≠ [] ∧ ∀ x ∈ b.take maxVarintBytes, endsVarint x = false

/-- Behind fewer than `room` whole integers there is one that is cut. -/
def StallsAt (room : Nat) (packed : Bytes) : Prop :=
  ∃ ints tail, packed = List.flatten ints ++ tail ∧ ints.length < room ∧
    (∀ b ∈ ints, IsVarint b) ∧ IsCut tail

section

variable {rest : Bytes} {value i : Nat}

theorem decodeVarintFrom_whole (hfront : ∀ x ∈ front, endsVarint x = false)
    (hlast : endsVarint last = true) (hlen : i + front.length < maxVarintBytes) :
    ∃ v, decodeVarintFrom value (7 * i) i (front ++ last :: rest) =
      .ok (v, i + front.length + 1) := by
  have hi : ¬ maxVarintBits ≤ 7 * i := by
    simp only [maxVarintBits, maxVarintBytes] at hlen ⊢
    omega
  induction front generalizing value i with
  | nil =>
    simp only [nil_append, decodeVarintFrom, if_neg hi, if_pos (and_high_bit.mpr hlast)]
    exact ⟨_, rfl⟩
  | cons b front ih =>
    have hb : ¬ b.toNat &&& 0x80 = 0 := by
      rw [and_high_bit, hfront b mem_cons_self]
      exact Bool.false_ne_true
    rw [length_cons] at hlen
    have hnext : ¬ maxVarintBytes ≤ i + 1 := by omega
    have hshift : 7 * i + 7 = 7 * (i + 1) := by omega
    simp only [cons_append, decodeVarintFrom, if_neg hi, if_neg hb, if_neg hnext, hshift]
    have hcount : i + (front.length + 1) + 1 = i + 1 + front.length + 1 := by omega
    rw [length_cons, hcount]
    apply ih (fun x hx => hfront x (mem_cons_of_mem _ hx))
    · omega
    simp only [maxVarintBits, maxVarintBytes] at hlen ⊢
    omega

theorem decodeVarintFrom_cut (hi : i < maxVarintBytes)
    (hcut : ∀ x ∈ rest.take (maxVarintBytes - i), endsVarint x = false) :
    ∃ e, decodeVarintFrom value (7 * i) i rest = .error e := by
  induction rest generalizing value i with
  | nil => exact ⟨_, rfl⟩
  | cons b rest ih =>
    have hshift : ¬ maxVarintBits ≤ 7 * i := by
      simp only [maxVarintBits, maxVarintBytes] at hi ⊢
      omega
    obtain ⟨n, hn⟩ : ∃ n, maxVarintBytes - i = n + 1 := ⟨maxVarintBytes - i - 1, by omega⟩
    rw [hn, take_succ_cons] at hcut
    have hb : ¬ b.toNat &&& 0x80 = 0 := by
      rw [and_high_bit, hcut b mem_cons_self]
      exact Bool.false_ne_true
    simp only [decodeVarintFrom, if_neg hshift, if_neg hb]
    split
    · exact ⟨_, rfl⟩
    rename_i hlast
    have hroom : maxVarintBytes - (i + 1) = n := by omega
    have hnext : 7 * i + 7 = 7 * (i + 1) := by omega
    rw [hnext]
    apply ih (by omega)
    rw [hroom]
    intro x hx
    exact hcut x (mem_cons_of_mem _ hx)

theorem decodeVarint_whole (h : IsVarint b) (rest : Bytes) :
    ∃ v, decodeVarint (b ++ rest) = .ok (v, b.length) := by
  obtain ⟨front, last, rfl, hfront, hlast, hlen⟩ := h
  obtain ⟨v, hv⟩ : ∃ v, decodeVarintFrom 0 (7 * 0) 0 (front ++ last :: rest) =
      .ok (v, 0 + front.length + 1) := decodeVarintFrom_whole hfront hlast (by omega)
  refine ⟨v, ?_⟩
  rw [append_assoc, singleton_append, length_append]
  simpa [decodeVarint] using hv

theorem decodeVarint_cut (h : IsCut rest) : ∃ e, decodeVarint rest = .error e :=
  decodeVarintFrom_cut (i := 0) (by decide) h.2

theorem whole_or_cut (hne : rest ≠ []) :
    (∃ b rest', rest = b ++ rest' ∧ IsVarint b) ∨ IsCut rest := by
  let front := rest.takeWhile fun x => !endsVarint x
  have hfront : ∀ x ∈ front, endsVarint x = false := by
    intro x hx
    simpa using mem_takeWhile_imp hx
  have hsplit : front ++ (rest.dropWhile fun x => !endsVarint x) = rest :=
    takeWhile_append_dropWhile
  by_cases hlen : front.length < maxVarintBytes
  · cases hdrop : rest.dropWhile fun x => !endsVarint x with
    | nil =>
      rw [hdrop, append_nil] at hsplit
      refine .inr ⟨hne, fun x hx => hfront x ?_⟩
      rw [hsplit]
      exact mem_of_mem_take hx
    | cons last rest' =>
      have hlast : endsVarint last = true := by
        have hhead := head_dropWhile_not (fun x => !endsVarint x) (l := rest) (by simp [hdrop])
        simpa [hdrop] using hhead
      refine .inl ⟨front ++ [last], rest', ?_, front, last, rfl, hfront, hlast, hlen⟩
      rw [append_assoc, singleton_append, ← hdrop, hsplit]
  refine .inr ⟨hne, fun x hx => hfront x ?_⟩
  rw [← hsplit, take_append_of_le_length (by omega)] at hx
  exact mem_of_mem_take hx

end

/-! ## The loop over packed integers -/

def Overflows (packed : Bytes) : Prop :=
  ∃ ints tail, packed = List.flatten ints ++ tail ∧ ints.length = maxItems ∧
    (∀ b ∈ ints, IsVarint b) ∧ tail ≠ []

section

variable {itemCount fuel : Nat} {decoded rest : Bytes}

theorem decodeInt64_mono (more : Nat) (h : decodeInt64 fuel itemCount decoded rest = some r) :
    decodeInt64 (fuel + more) itemCount decoded rest = some r := by
  induction fuel generalizing itemCount decoded rest with
  | zero => cases h
  | succ fuel ih =>
    rw [succ_add]
    simp only [decodeInt64] at h ⊢
    split at h
    · exact h
    split_ifs at h ⊢
    · exact h
    · split at h <;> exact ih h

theorem decodeInt64_whole (h : IsVarint b) (hroom : itemCount < maxItems) (decoded rest : Bytes) :
    ∃ d, ∀ fuel, decodeInt64 (fuel + 1) itemCount decoded (b ++ rest) =
      decodeInt64 fuel (itemCount + 1) d rest := by
  obtain ⟨v, hv⟩ := decodeVarint_whole h rest
  obtain ⟨x, xs, hx⟩ : ∃ x xs, b ++ rest = x :: xs := by
    obtain ⟨front, last, rfl, -⟩ := h
    cases front with
    | nil | cons x front => exact ⟨_, _, rfl⟩
  have hdrop : (x :: xs).drop b.length = rest := by rw [← hx, drop_left]
  rw [hx] at hv ⊢
  refine ⟨decoded ++ toLe 8 v, fun fuel => ?_⟩
  simp only [decodeInt64, PackedVarintIter.next, hv, if_neg (Nat.not_le.mpr hroom), hdrop]

theorem decodeInt64_ints (hints : ∀ b ∈ ints, IsVarint b)
    (itemCount : Nat) (hroom : itemCount + ints.length ≤ maxItems) (decoded rest : Bytes) :
    ∃ d, ∀ fuel, decodeInt64 (fuel + ints.length) itemCount decoded (List.flatten ints ++ rest) =
      decodeInt64 fuel (itemCount + ints.length) d rest := by
  induction ints generalizing itemCount decoded with
  | nil => exact ⟨decoded, fun fuel => rfl⟩
  | cons b ints ih =>
    rw [length_cons] at hroom
    obtain ⟨d₁, hd₁⟩ := decodeInt64_whole (hints b mem_cons_self)
      (show itemCount < maxItems by omega) decoded (List.flatten ints ++ rest)
    obtain ⟨d₂, hd₂⟩ := ih (fun x hx => hints x (mem_cons_of_mem _ hx)) (itemCount + 1)
      (by omega) d₁
    refine ⟨d₂, fun fuel => ?_⟩
    rw [flatten_cons, append_assoc, length_cons, ← add_assoc, hd₁, hd₂, add_assoc, add_comm 1]

theorem decodeInt64_cut (h : IsCut rest) (hroom : itemCount < maxItems) (fuel : Nat) :
    decodeInt64 fuel itemCount decoded rest = none := by
  obtain ⟨e, he⟩ := decodeVarint_cut h
  obtain ⟨x, xs, rfl⟩ := exists_cons_of_ne_nil h.1
  induction fuel with
  | zero => rfl
  | succ fuel ih =>
    simp only [decodeInt64, PackedVarintIter.next, he, if_neg (Nat.not_le.mpr hroom)]
    exact ih

theorem decodeInt64_stalls (h : StallsAt maxItems rest) (fuel : Nat) :
    decodeInt64 fuel 0 [] rest = none := by
  obtain ⟨ints, tail, rfl, hfew, hints, htail⟩ := h
  obtain ⟨d, hd⟩ := decodeInt64_ints hints 0 (by omega) [] tail
  cases hr : decodeInt64 fuel 0 [] (List.flatten ints ++ tail) with
  | none => rfl
  | some r =>
    have hmore := decodeInt64_mono ints.length hr
    rw [hd, decodeInt64_cut htail (by omega)] at hmore
    cases hmore

theorem decodeInt64_overflows (h : Overflows rest) :
    decodeInt64 (1 + maxItems) 0 [] rest = some none := by
  obtain ⟨ints, tail, rfl, hmany, hints, htail⟩ := h
  obtain ⟨d, hd⟩ := decodeInt64_ints hints 0 (by omega) [] tail
  obtain ⟨x, xs, rfl⟩ := exists_cons_of_ne_nil htail
  rw [← hmany, hd, hmany]
  simp only [decodeInt64, PackedVarintIter.next]
  cases decodeVarint (x :: xs) with
  | error e | ok p => rfl

theorem decodeInt64_cases (rest : Bytes) : StallsAt maxItems rest ∨ Overflows rest ∨
      ∃ fuel d, decodeInt64 fuel 0 [] rest = some (some d) := by
  -- what is left behind `ints` is looked at integer by integer
  suffices hmain : ∀ (n : Nat) (ints : List Bytes) (tail : Bytes), tail.length = n →
      (∀ b ∈ ints, IsVarint b) → ints.length ≤ maxItems →
      StallsAt maxItems (List.flatten ints ++ tail) ∨ Overflows (List.flatten ints ++ tail) ∨
        ∃ fuel d, decodeInt64 fuel 0 [] (List.flatten ints ++ tail) = some (some d) by
    simpa using hmain rest.length [] rest rfl (by simp) (by simp)
  intro n
  induction n using Nat.strong_induction_on with
  | _ n ih =>
    intro ints tail hlen hints hroom
    by_cases hempty : tail = []
    · obtain ⟨d, hd⟩ := decodeInt64_ints hints 0 (by omega) [] tail
      refine .inr (.inr ⟨1 + ints.length, d, ?_⟩)
      rw [hd, hempty]
      rfl
    rcases lt_or_ge ints.length maxItems with hfew | hfull
    · rcases whole_or_cut hempty with ⟨b, tail', rfl, hb⟩ | hcut
      · have hshorter : tail'.length < n := by
          obtain ⟨front, last, rfl, -⟩ := hb
          simp at hlen
          omega
        have hnext := ih tail'.length hshorter (ints ++ [b]) tail' rfl
          (by simpa [or_imp, forall_and] using ⟨hints, hb⟩) (by simpa using hfew)
        simpa using hnext
      · exact .inl ⟨ints, tail, rfl, hfew, hints, hcut⟩
    · exact .inr (.inl ⟨ints, tail, rfl, by omega, hints, hempty⟩)

end

/-! ## Tensors -/

def TensorInfo.packed (t : TensorInfo) : Option Bytes :=
  match t.rawData, t.floatData with
  | none, none => t.int64Data
  | _, _ => none

def TensorInfo.Stalls (t : TensorInfo) : Prop := ∃ b ∈ t.packed, StallsAt maxItems b

def TensorInfo.TooMany (t : TensorInfo) : Prop := ∃ b ∈ t.packed, Overflows b

/-- Taken in order, no tensor stalls before one is refused; `used` bytes of the block are
taken already. -/
def Settles (total : Nat) : Nat → List TensorInfo → Prop
  | _, [] => True
  | used, t :: ts =>
    ¬ t.Stalls ∧ (t.TooMany ∨ total < used + t.storedSize ∨ Settles total (used + t.storedSize) ts)

section

variable {fuel total ptr : Nat} {t : TensorInfo} {c : Copy}

theorem source_mono (more : Nat) (h : t.source fuel = some src) :
    t.source (fuel + more) = some src := by
  unfold source at h ⊢
  split at h
  · exact h
  · exact h
  · split at h
    · cases h
    all_goals
      rename_i hdecode
      rw [decodeInt64_mono more hdecode]
      exact h
  · exact h

theorem tensor_mono (more : Nat) (h : c.tensor fuel total ptr t = some r) :
    c.tensor (fuel + more) total ptr t = some r := by
  unfold tensor at h ⊢
  split at h
  · rename_i hsize
    rw [if_pos hsize]
    exact h
  rename_i hsize
  rw [if_neg hsize]
  cases hsource : t.source fuel with
  | none =>
    rw [hsource] at h
    cases h
  | some src =>
    rw [hsource] at h
    rw [source_mono more hsource]
    exact h

theorem copyTensors_mono (more : Nat) (h : copyTensors fuel total ptr c ts = some r) :
    copyTensors (fuel + more) total ptr c ts = some r := by
  induction ts generalizing c with
  | nil => exact h
  | cons t ts ih =>
    simp only [copyTensors] at h ⊢
    cases htensor : c.tensor fuel total ptr t with
    | none =>
      rw [htensor] at h
      cases h
    | some q =>
      rw [htensor] at h
      rw [tensor_mono more htensor]
      cases q with
      | error e => exact h
      | ok c' => exact ih h

variable {b : Bytes}

theorem dataSize_of_packed (h : t.packed = some b) : t.dataSize = b.length := by
  unfold packed at h
  split at h
  · rename_i hraw hfloat
    simp [dataSize, hraw, hfloat, h]
  · cases h

theorem source_of_packed (h : t.packed = some b) :
    t.source fuel = (decodeInt64 fuel 0 [] b).map fun r => r.elim .overflow .bytes := by
  unfold packed at h
  split at h
  · rename_i hraw hfloat
    simp only [source, hraw, hfloat, h]
    rcases decodeInt64 fuel 0 [] b with _ | _ | d <;> rfl
  · cases h

theorem source_of_not_packed (h : t.packed = none) :
    t.source 0 = some .missing ∨ ∃ src, t.source 0 = some (.bytes src) := by
  unfold packed at h
  split at h
  · rename_i hraw hfloat
    exact .inl (by simp only [source, hraw, hfloat, h])
  rename_i hsome
  unfold source
  cases hraw : t.rawData with
  | some raw => exact .inr ⟨raw, rfl⟩
  | none =>
    cases hfloat : t.floatData with
    | some floats => exact .inr ⟨floats, rfl⟩
    | none => exact (hsome hraw hfloat).elim

theorem dataSize_ne_zero (h : t.packed = some b) (hb : b ≠ []) : t.dataSize ≠ 0 := by
  rw [dataSize_of_packed h]
  exact (length_pos_of_ne_nil hb).ne'

theorem tensor_stalls (h : t.Stalls) (fuel : Nat) : c.tensor fuel total ptr t = none := by
  obtain ⟨b, hb, hstalls⟩ := h
  have hne : b ≠ [] := by
    obtain ⟨ints, tail, rfl, -, -, htail⟩ := hstalls
    exact append_ne_nil_of_right_ne_nil _ htail.1
  rw [tensor, if_neg (dataSize_ne_zero hb hne), source_of_packed hb, decodeInt64_stalls hstalls]
  rfl

theorem tensor_tooMany (h : t.TooMany) :
    c.tensor (1 + maxItems) total ptr t = some (.error .corruptedData) := by
  obtain ⟨b, hb, hmany⟩ := h
  have hne : b ≠ [] := by
    obtain ⟨ints, tail, rfl, -, -, htail⟩ := hmany
    exact append_ne_nil_of_right_ne_nil _ htail
  rw [tensor, if_neg (dataSize_ne_zero hb hne), source_of_packed hb, decodeInt64_overflows hmany]
  rfl

theorem tensor_settles (ptr : Nat) (hstalls : ¬ t.Stalls) (hmany : ¬ t.TooMany)
    (hoffset : c.offset ≤ total) (htotal : total ≤ maxUsize) :
    ∃ fuel, (total < c.offset + t.storedSize ∧ ∃ e, c.tensor fuel total ptr t = some (.error e)) ∨
      ∃ c', c'.offset = c.offset + t.storedSize ∧ c'.offset ≤ total ∧
        c.tensor fuel total ptr t = some (.ok c') := by
  by_cases hsize : t.dataSize = 0
  · refine ⟨0, .inr ⟨c, ?_, hoffset, by rw [tensor, if_pos hsize]⟩⟩
    rw [storedSize, if_pos hsize, add_zero]
  obtain ⟨fuel, hsource⟩ : ∃ fuel, t.source fuel = some .missing ∨
      ∃ src, t.source fuel = some (.bytes src) := by
    cases hpacked : t.packed with
    | none => exact ⟨0, source_of_not_packed hpacked⟩
    | some b =>
      rcases decodeInt64_cases b with h | h | ⟨fuel, d, hd⟩
      · exact absurd ⟨b, hpacked, h⟩ hstalls
      · exact absurd ⟨b, hpacked, h⟩ hmany
      refine ⟨fuel, .inr ⟨d, ?_⟩⟩
      rw [source_of_packed hpacked, hd]
      rfl
  refine ⟨fuel, ?_⟩
  rcases hsource with hsource | ⟨src, hsource⟩
  · refine .inr ⟨c, ?_, hoffset, ?_⟩
    · rw [source_missing hsize hsource, add_zero]
    · rw [tensor, if_neg hsize, hsource]
  have hstored := source_bytes hsize hsource
  by_cases hfits : c.offset + t.storedSize ≤ total
  · refine .inr ⟨c.add ptr t src, ?_, ?_, ?_⟩
    · rw [← hstored]
      rfl
    · simp only [add, hstored]
      exact hfits
    · simp only [tensor, if_neg hsize, hsource, hstored]
      rw [if_pos ⟨hfits.trans htotal, hfits⟩]
  refine .inl ⟨by omega, .corruptedData, ?_⟩
  simp only [tensor, if_neg hsize, hsource, hstored]
  rw [if_neg fun h => hfits h.2]

theorem copyTensors_ends (ptr : Nat) (hoffset : c.offset ≤ total) (htotal : total ≤ maxUsize) :
    (∃ fuel r, copyTensors fuel total ptr c ts = some r) ↔ Settles total c.offset ts := by
  induction ts generalizing c with
  | nil => exact iff_of_true ⟨0, _, rfl⟩ trivial
  | cons t ts ih =>
    simp only [Settles, copyTensors]
    by_cases hstalls : t.Stalls
    · simp [tensor_stalls hstalls, hstalls]
    by_cases hmany : t.TooMany
    · refine iff_of_true ⟨1 + maxItems, .error .corruptedData, ?_⟩ ⟨hstalls, .inl hmany⟩
      rw [tensor_tooMany hmany]
    obtain ⟨n, ⟨hlarge, e, he⟩ | ⟨c', hc', hle, htensor⟩⟩ :=
      tensor_settles ptr hstalls hmany hoffset htotal
    · refine iff_of_true ⟨n, .error e, by rw [he]⟩ ⟨hstalls, .inr (.inl hlarge)⟩
    have hrest := ih (c := c') hle
    rw [hc'] at hrest hle
    simp only [hstalls, hmany, not_false_eq_true, true_and, false_or, not_lt.mpr hle]
    rw [← hrest]
    constructor
    · rintro ⟨fuel, r, h⟩
      cases hfuel : c.tensor fuel total ptr t with
      | none =>
        rw [hfuel] at h
        cases h
      | some q =>
        -- more rounds give the same tensor
        have hmore := tensor_mono n hfuel
        rw [add_comm, tensor_mono fuel htensor] at hmore
        cases hmore
        rw [hfuel] at h
        exact ⟨fuel, r, h⟩
    rintro ⟨fuel, r, h⟩
    refine ⟨n + fuel, r, ?_⟩
    rw [tensor_mono fuel htensor, add_comm]
    exact copyTensors_mono n h

end

theorem totalWeightSizeExpanded_le (m : ParsedOnnx) : m.totalWeightSizeExpanded ≤ maxUsize := by
  have hfold : ∀ (ts : List TensorInfo) (n : Nat), n ≤ maxUsize →
      ts.foldl (fun total t => min (total + t.expandedSize) maxUsize) n ≤ maxUsize := by
    intro ts
    induction ts with
    | nil => exact fun n h => h
    | cons t ts ih => exact fun n _ => ih _ (min_le_right _ _)
  exact hfold _ 0 (zero_le _)

/-- The load gets to the tensors only if none of them stalls before one is refused. -/
def LoadSettles (mm : Allocator) (data : Bytes) : Prop :=
  ∀ parsed weights ptr, parseOnnx data = .ok parsed → parsed.totalWeightSizeExpanded ≠ 0 →
    mm.allocWeights parsed.totalWeightSizeExpanded = .ok weights →
    mm.getPtr weights = some ptr →
    Settles parsed.totalWeightSizeExpanded 0 parsed.initializers.items

theorem prepareOnnxPayload_ends (mm : Allocator) (name data : Bytes) :
    (∃ fuel r, prepareOnnxPayload fuel mm name data = some r) ↔ LoadSettles mm data := by
  simp only [prepareOnnxPayload, LoadSettles]
  cases hparse : parseOnnx data with
  | error e => simp
  | ok parsed =>
    by_cases hzero : parsed.totalWeightSizeExpanded = 0
    · refine iff_of_true ⟨0, .error .invalidFormat, by simp [hzero]⟩ ?_
      rintro _ _ _ ⟨⟩ hne
      exact absurd hzero hne
    cases halloc : mm.allocWeights parsed.totalWeightSizeExpanded with
    | error e =>
      refine iff_of_true ⟨0, .error (.ofAlloc e), by simp [hzero, halloc]⟩ ?_
      rintro _ _ _ ⟨⟩ - hok
      rw [halloc] at hok
      cases hok
    | ok weights =>
      cases hptr : mm.getPtr weights with
      | none =>
        refine iff_of_true ⟨0, .error .allocFailed, by simp [hzero, halloc, hptr]⟩ ?_
        rintro _ _ _ ⟨⟩ - hok hsome
        rw [halloc] at hok
        cases hok
        rw [hptr] at hsome
        cases hsome
      | some ptr =>
        have hcopy : (∃ fuel r, copyTensors fuel parsed.totalWeightSizeExpanded ptr
            ⟨0, .empty, []⟩ parsed.initializers.items = some r) ↔
            Settles parsed.totalWeightSizeExpanded 0 parsed.initializers.items :=
          copyTensors_ends ptr (zero_le _) (totalWeightSizeExpanded_le parsed)
        simp only [if_neg hzero, halloc, hptr]
        constructor
        · rintro ⟨fuel, r, h⟩ _ _ _ ⟨⟩ - - -
          apply hcopy.mp
          cases hr : copyTensors fuel parsed.totalWeightSizeExpanded ptr ⟨0, .empty, []⟩
              parsed.initializers.items with
          | none =>
            rw [hr] at h
            cases h
          | some q => exact ⟨fuel, q, hr⟩
        intro h
        obtain ⟨fuel, q, hq⟩ := hcopy.mpr (h parsed weights ptr rfl hzero halloc hptr)
        refine ⟨fuel, ?_⟩
        simp only [hq]
        cases q with
        | error e => exact ⟨_, rfl⟩
        | ok c =>
          cases mm.allocWorkspace (max (parsed.totalWeightSizeExpanded / 4) (64 * 1024)) with
          | error e => exact ⟨_, rfl⟩
          | ok workspace => exact ⟨_, rfl⟩

theorem ends_iff {α : Type} {f : Nat → Option α} :
    (∃ fuel r, f fuel = some r) ↔ ¬ ∀ fuel, f fuel = none := by
  simp [Option.ne_none_iff_exists']

theorem onnx_loading_ends (mm : Allocator) (now : Nat) (before reg : ModelRegistry) (index : Nat)
    (name data : Bytes) :
    (∀ (σ : Type) (body : σ → ProtoField → Except ParseError σ) (s : σ) (b : Bytes),
      Loops ProtoIter.next body s b (forEach ProtoIter.next body s b)) ∧
    (∀ (σ : Type) (body : σ → Nat → Except ParseError σ) (s : σ) (b : Bytes),
      Loops PackedVarintIter.next body s b (forEach PackedVarintIter.next body s b)) ∧
    Loops ProtoIter.next modelField .new data (parseOnnx data) ∧
    ((∃ fuel r, prepareOnnxPayload fuel mm name data = some r) ↔ LoadSettles mm data) ∧
    ((∃ fuel r, loadModel fuel mm now reg name data = some r) ↔ LoadSettles mm data) ∧
    ((∃ fuel r, swapModel fuel mm now before reg index name data = some r) ↔
      (index < maxModels → swapCheck (before index) = .ok () → LoadSettles mm data)) := by
  have hprepare := prepareOnnxPayload_ends mm name data
  refine ⟨fun _ _ _ b => loops_forEach protoIter_advances b,
    fun _ _ _ b => loops_forEach packedVarintIter_advances b, loops_forEach protoIter_advances data,
    hprepare, ?_, ?_⟩
  · rw [ends_iff]
    simp only [loadModel_eq_none_iff]
    rw [← ends_iff, hprepare]
  rw [ends_iff]
  simp only [swapModel_eq_none_iff]
  rw [← hprepare, ends_iff]
  simp only [forall_and, forall_const]
  tauto

/-- One initializer, whose only data is an integer that goes on behind the end. -/
def cutModel : Bytes := [0x3A, 5, 0x2A, 3, 0x3A, 1, 0x80]

def cutTensor : TensorInfo := { TensorInfo.empty with int64Data := some [0x80] }

theorem onnx_load_hangs : (∀ fuel, prepareOnnxPayload fuel pools [] cutModel = none) ∧
      ∀ fuel, loadModel fuel pools 0 (fun _ => .empty) [] cutModel = none := by
  have hparse : parseOnnx cutModel =
      .ok { ParsedOnnx.new with initializers := ⟨[cutTensor], by decide⟩ } := rfl
  have hstalls : cutTensor.Stalls := by
    refine ⟨[0x80], rfl, [], [0x80], rfl, by decide, by simp, by simp, ?_⟩
    intro x hx
    obtain rfl := mem_singleton.mp (mem_of_mem_take hx)
    rfl
  have hprepare : ∀ fuel, prepareOnnxPayload fuel pools [] cutModel = none := by
    intro fuel
    have htotal : ParsedOnnx.totalWeightSizeExpanded
        { ParsedOnnx.new with initializers := ⟨[cutTensor], by decide⟩ } = 1 := rfl
    have hcopy : copyTensors fuel 1 0x200000 ⟨0, .empty, []⟩ [cutTensor] = none := by
      simp only [copyTensors, tensor_stalls hstalls]
    simp only [prepareOnnxPayload, hparse, htotal, pools, hcopy]
    rfl
  exact ⟨hprepare, fun fuel => loadModel_eq_none_iff.mpr (hprepare fuel)⟩

end SlmOs.Onnx
