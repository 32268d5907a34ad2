import SlmOs.Foundation.Scan
import SlmOs.Foundation.Wire

/-!
# The merge loop of the tokenizer

A chunk of text is cut into its characters, and the adjacent pair with the lowest rank is
merged, the leftmost of them first, until no pair has a rank.  A rule whose result would
be longer than a token is not loaded, so that the loop never meets one.
-/

namespace SlmOs.Slm.Bbpe

open Foundation Function List

def maxPlausibleMerges : Nat := 1 <<< 20
def maxTokenBytes : Nat := 512

inductive TokenizerError where
  | badMergeFormat
  | mergesTooLarge
  deriving DecidableEq, Repr

abbrev Piece := Bytes

/-- `merges`: the rank of a pair; a rule given twice has its last rank. -/
abbrev Merges := Piece × Piece → Option Nat

/-- The two sides of a rule, cut at its first space; neither may be empty. -/
def splitRule (rule : Piece) : Option (Piece × Piece) :=
  match rule.findIdx? (· = 0x20) with
  | none => none
  | some i =>
    if 0 < i ∧ i + 1 < rule.length then some (rule.take i, rule.drop (i + 1)) else none

def addRule (m : Merges) (rule : Piece × Nat) : Except TokenizerError Merges :=
  match splitRule rule.1 with
  | none => .error .badMergeFormat
  | some (left, right) =>
    if maxTokenBytes < left.length + right.length then .ok m
    -- `u32::try_from`
    else if 2 ^ 32 ≤ rule.2 then .error .mergesTooLarge
    else .ok (update m (left, right) (some rule.2))

/-- The part of `from_gguf` that reads `tokenizer.ggml.merges`. -/
def loadMerges (rules : List Piece) : Except TokenizerError Merges :=
  if maxPlausibleMerges < rules.length then .error .mergesTooLarge
  else rules.zipIdx.foldlM addRule fun _ => none

variable (m : Merges)

def rankAt (pieces : List Piece) (i : Nat) : WithTop Nat :=
  match pieces[i]?, pieces[i + 1]? with
  | some a, some b => (m (a, b)).elim ⊤ fun rank => (rank : WithTop Nat)
  | _, _ => ⊤

def bestPair (pieces : List Piece) : Nat × WithTop Nat :=
  scanMin (fun _ => true) (rankAt m pieces) (0, ⊤) (List.range (pieces.length - 1))

def merged (pieces : List Piece) : Piece :=
  let i := (bestPair m pieces).1
  pieces.getD i [] ++ pieces.getD (i + 1) []

/-- The loop bails out of a merge that would be longer than a token. -/
def Oversized (pieces : List Piece) : Prop :=
  (bestPair m pieces).2 ≠ ⊤ ∧ maxTokenBytes < (merged m pieces).length

/-- One round; `none` leaves the loop. -/
def mergeRound (pieces : List Piece) : Option (List Piece) :=
  let i := (bestPair m pieces).1
  if (bestPair m pieces).2 = ⊤ then none
  else if maxTokenBytes < (merged m pieces).length then none
  else some ((pieces.set i (merged m pieces)).eraseIdx (i + 1))

variable {m} {p q : List Piece} {i j : Nat}

/-! ## The pair that is merged -/

theorem exists_of_rankAt (h : rankAt m p i ≠ ⊤) :
    ∃ l₁ a b l₂, p = l₁ ++ a :: b :: l₂ ∧ l₁.length = i ∧ m (a, b) ≠ none := by
  unfold rankAt at h
  split at h
  · rename_i a b ha hb
    obtain ⟨hi, ha⟩ := List.getElem?_eq_some_iff.mp ha
    obtain ⟨hi', hb⟩ := List.getElem?_eq_some_iff.mp hb
    refine ⟨p.take i, a, b, p.drop (i + 2), ?_, length_take_of_le hi.le, ?_⟩
    · rw [← ha, ← hb, getElem_cons_drop, getElem_cons_drop, take_append_drop]
    intro hnone
    rw [hnone] at h
    exact h rfl
  · exact absurd rfl h

/-- The leftmost of the pairs with the lowest rank is at `i`. -/
structure LowestRank (m : Merges) (p : List Piece) (i : Nat) : Prop where
  ranked : rankAt m p i ≠ ⊤
  le : ∀ j, rankAt m p i ≤ rankAt m p j
  lt : ∀ j < i, rankAt m p i < rankAt m p j

theorem LowestRank.unique (hi : LowestRank m p i) (hj : LowestRank m p j) : i = j := by
  rcases lt_trichotomy i j with h | h | h
  · exact absurd (hj.lt i h) (not_lt.mpr (hi.le j))
  · exact h
  · exact absurd (hi.lt j h) (not_lt.mpr (hj.le i))

theorem bestPair_spec (m : Merges) (p : List Piece) :
    ((bestPair m p).2 = ⊤ ∧ ∀ i, rankAt m p i = ⊤) ∨
      ((bestPair m p).2 ≠ ⊤ ∧ LowestRank m p (bestPair m p).1) := by
  have hout : ∀ j, p.length - 1 ≤ j → rankAt m p j = ⊤ := fun j hj => by
    by_contra h
    obtain ⟨l₁, a, b, l₂, rfl, rfl, -⟩ := exists_of_rankAt h
    simp at hj
  unfold bestPair
  rcases scanMin_spec (fun _ => true) (rankAt m p) (List.range (p.length - 1)) (0, ⊤) with
    ⟨heq, hle⟩ | ⟨i, heq, hlt, hfirst⟩
  · refine .inl ⟨by rw [heq], fun i => ?_⟩
    rcases Nat.lt_or_ge i (p.length - 1) with hi | hi
    · exact top_le_iff.mp (hle i (mem_range.mpr hi) rfl)
    · exact hout i hi
  obtain ⟨hi, hmin⟩ := hfirst.range
  rw [heq]
  refine .inr ⟨hlt.ne, hlt.ne, fun j => ?_, fun j hj => (hmin j (by omega)).2 hj⟩
  rcases Nat.lt_or_ge j (p.length - 1) with hj | hj
  · exact (hmin j hj).1
  rw [hout j hj]
  exact le_top

theorem merged_at (h : (bestPair m (l₁ ++ a :: b :: l₂)).1 = l₁.length) :
    merged m (l₁ ++ a :: b :: l₂) = a ++ b := by
  simp [merged, h]

/-- Every round merges the pair of `LowestRank`, where the rules keep to the limit. -/
theorem mergeRound_eq_some (h : mergeRound m p = some q) : ∃ l₁ a b l₂,
    p = l₁ ++ a :: b :: l₂ ∧ q = l₁ ++ (a ++ b) :: l₂ ∧ LowestRank m p l₁.length := by
  simp only [mergeRound] at h
  split at h
  · cases h
  rename_i htop
  split at h
  · cases h
  rcases bestPair_spec m p with ⟨htop', -⟩ | ⟨-, hlow⟩
  · exact absurd htop' htop
  obtain ⟨l₁, a, b, l₂, rfl, hi, -⟩ := exists_of_rankAt hlow.ranked
  refine ⟨l₁, a, b, l₂, rfl, ?_, hi ▸ hlow⟩
  rw [← Option.some.inj h, merged_at hi.symm, ← hi]
  simp [eraseIdx_append_of_length_le]

theorem mergeRound_length (h : mergeRound m p = some q) : q.length + 1 = p.length := by
  obtain ⟨l₁, a, b, l₂, rfl, rfl, -⟩ := mergeRound_eq_some h
  simp
  omega

def mergeLoop (m : Merges) (pieces : List Piece) : List Piece :=
  match _h : mergeRound m pieces with
  | none => pieces
  | some q => mergeLoop m q
termination_by pieces.length
decreasing_by exact Nat.lt_of_succ_le (mergeRound_length _h).le

/-! ## The rules that are loaded -/

def Short (m : Merges) : Prop :=
  ∀ a b, m (a, b) ≠ none → a.length + b.length ≤ maxTokenBytes

theorem addRule_short (hm : Short m) (h : addRule m rule = .ok m') : Short m' := by
  unfold addRule at h
  split at h
  · cases h
  rename_i left right hsplit
  split at h
  · cases h
    exact hm
  split at h
  · cases h
  cases h
  intro a b hab
  by_cases heq : (a, b) = (left, right)
  · cases heq
    omega
  rw [update_of_ne heq] at hab
  exact hm a b hab

theorem loadMerges_short (h : loadMerges rules = .ok m) : Short m := by
  unfold loadMerges at h
  split at h
  · cases h
  exact foldlM_ok (fun _ => Short) (fun _ _ hne => absurd rfl hne)
    (fun _ _ _ _ _ hm hadd => addRule_short hm hadd) h

theorem Short.not_oversized (hm : Short m) (p : List Piece) : ¬ Oversized m p := by
  rintro ⟨htop, hlen⟩
  rcases bestPair_spec m p with ⟨htop', -⟩ | ⟨-, hlow⟩
  · exact htop htop'
  obtain ⟨l₁, a, b, l₂, rfl, hi, hab⟩ := exists_of_rankAt hlow.ranked
  rw [merged_at hi.symm, length_append] at hlen
  exact absurd (hm a b hab) (by omega)

theorem Short.mergeRound_eq_none (hm : Short m) (h : mergeRound m p = none) (i : Nat) :
    rankAt m p i = ⊤ := by
  rcases bestPair_spec m p with ⟨-, hall⟩ | ⟨hne, -⟩
  · exact hall i
  simp [mergeRound, hne] at h
  exact absurd ⟨hne, h⟩ (hm.not_oversized p)

/-! ## Byte pair encoding -/

/-- `n` merges, each of the leftmost pair with the lowest rank, until no pair has one. -/
inductive Reference (m : Merges) : Nat → List Piece → List Piece → Prop
  | done {p : List Piece} (h : ∀ i, rankAt m p i = ⊤) : Reference m 0 p p
  | merge {n : Nat} {l₁ l₂ out : List Piece} {a b : Piece}
      (h : LowestRank m (l₁ ++ a :: b :: l₂) l₁.length)
      (rest : Reference m n (l₁ ++ (a ++ b) :: l₂) out) :
      Reference m (n + 1) (l₁ ++ a :: b :: l₂) out

theorem Reference.le (h : Reference m n p q) : n ≤ p.length - 1 := by
  induction h with
  | done => exact Nat.zero_le _
  | merge _ _ ih =>
    simp at ih ⊢
    omega

theorem Reference.unique (h : Reference m n p q) (h' : Reference m k p q') : n = k ∧ q = q' := by
  induction h generalizing k with
  | done hnone =>
    cases h' with
    | done => exact ⟨rfl, rfl⟩
    | merge hlow => exact absurd (hnone _) hlow.ranked
  | @merge n l₁ l₂ out a b hlow _ ih =>
    generalize hp : l₁ ++ a :: b :: l₂ = p at h'
    cases h' with
    | done hnone => exact absurd (hnone _) (hp ▸ hlow.ranked)
    | @merge k l₁' l₂' _ a' b' hlow' rest' =>
      have hlen := hlow.unique (hp ▸ hlow')
      obtain ⟨rfl, heq⟩ := append_inj hp hlen
      cases heq
      obtain ⟨rfl, rfl⟩ := ih rest'
      exact ⟨rfl, rfl⟩

theorem Short.reference (hm : Short m) (p : List Piece) : ∃ n, Reference m n p (mergeLoop m p) := by
  induction p using mergeLoop.induct m with
  | case1 p h =>
    rw [mergeLoop]
    split
    · exact ⟨0, .done (hm.mergeRound_eq_none h)⟩
    · simp_all
  | case2 p q h ih =>
    obtain ⟨n, hn⟩ := ih
    obtain ⟨l₁, a, b, l₂, rfl, rfl, hlow⟩ := mergeRound_eq_some h
    rw [mergeLoop]
    split
    · simp_all
    rename_i h'
    cases h.symm.trans h'
    exact ⟨n + 1, .merge hlow hn⟩

theorem flatten_of_rounds (h : Relation.ReflTransGen (fun p q => mergeRound m p = some q) p q) :
    q.flatten = p.flatten := by
  induction h with
  | refl => rfl
  | tail _ h ih =>
    obtain ⟨l₁, a, b, l₂, rfl, rfl, -⟩ := mergeRound_eq_some h
    simpa using ih

def initialPieces (chunk : List Char) : List Piece := chunk.map String.utf8EncodeChar

/--
With any rules that `from_gguf` accepts, the merge loop is byte pair encoding: it ends
after fewer merges than the chunk has characters, loses no byte on the way and never
bails out.
-/
theorem merge_loop_is_bpe {rules : List Piece} {m : Merges} (h : loadMerges rules = .ok m)
    (chunk : List Char) :
    (∃ n ≤ chunk.length - 1, ∀ k out, Reference m k (initialPieces chunk) out ↔
      k = n ∧ out = mergeLoop m (initialPieces chunk)) ∧
    (∀ p, Relation.ReflTransGen (fun p q => mergeRound m p = some q) (initialPieces chunk) p →
      p.flatten = chunk.flatMap String.utf8EncodeChar) ∧
    ∀ p, ¬ Oversized m p := by
  have hm := loadMerges_short h
  obtain ⟨n, hn⟩ := hm.reference (initialPieces chunk)
  refine ⟨⟨n, ?_, fun k out => ⟨fun hk => ?_, fun ⟨hk, hout⟩ => hk ▸ hout ▸ hn⟩⟩,
    fun p hp => ?_, hm.not_oversized⟩
  · simpa [initialPieces] using hn.le
  · obtain ⟨rfl, rfl⟩ := hk.unique hn
    exact ⟨rfl, rfl⟩
  rw [flatten_of_rounds hp]
  simp [initialPieces, flatMap_def]

theorem merge_loop_is_bpe_ab : ∃ m, loadMerges [[0x61, 0x20, 0x62]] = .ok m ∧
    (∀ p, ¬ Oversized m p) ∧
    mergeLoop m (initialPieces ['a', 'b', 'a']) = [[0x61, 0x62], [0x61]] := by
  have h : loadMerges [[0x61, 0x20, 0x62]] =
      .ok (update (fun _ => none) ([0x61], [0x62]) (some 0)) := rfl
  refine ⟨_, h, (merge_loop_is_bpe h ['a', 'b', 'a']).2.2, ?_⟩
  decide +kernel

end SlmOs.Slm.Bbpe
