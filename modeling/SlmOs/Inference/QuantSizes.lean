import SlmOs.Foundation.Wire

/-!
# The sizes of quantized matrices

The loader sizes a tensor by the number of its elements (`runtime/src/slm/registry.rs`), the
product by its rows (`runtime/src/inference/ops_transformer.rs`), both with `quant_row_bytes`.
-/

namespace SlmOs.Inference

open Foundation List

inductive GgmlType
  | f32 | f16 | q4K | q6K | q50 | q80
  deriving DecidableEq, Repr

def checked (n : Nat) : Option Nat := if n < 2 ^ 64 then some n else none

/-- `q4_k_block_count` and `q8_k_block_count` -/
def superBlockCount (n : Nat) : Nat := n / 256 + if n % 256 ≠ 0 then 1 else 0

/-- `q6_k_byte_size`, `q5_0_byte_size` and `q8_0_byte_size` -/
def blockBytes (elements size n : Nat) : Option Nat :=
  if n % elements ≠ 0 then none else checked (n / elements * size)

def quantRowBytes (t : GgmlType) (n : Nat) : Option Nat :=
  match t with
  | .f32 => checked (n * 4)
  | .f16 => checked (n * 2)
  | .q4K => checked (superBlockCount n * 144)
  | .q6K => blockBytes 256 210 n
  | .q50 => blockBytes 32 22 n
  | .q80 => blockBytes 32 34 n

def ggmlTypeByteSize (t : GgmlType) (n : Nat) : Option Nat := quantRowBytes t n

/-- `tensor_info_and_bytes` for a matrix -/
def tensorBytes (t : GgmlType) (rows cols start offset : Nat) (buffer : Bytes) : Option Bytes := do
  let n ← checked (cols * rows)
  let size ← ggmlTypeByteSize t n
  let absStart ← checked (start + offset)
  let absEnd ← checked (absStart + size)
  if absEnd > buffer.length then none else some ((buffer.take absEnd).drop absStart)

structure Buffers where
  (acts q8k dequant actsF32 out : Nat)

def Buffers.suffice (b : Buffers) (t : GgmlType) (cols rowBytes : Nat) : Bool :=
  if t = .q4K ∧ cols % 256 = 0 then superBlockCount cols * 292 ≤ b.q8k
  else (if t = .q4K then rowBytes / 144 * 256 else cols) ≤ b.dequant ∧ cols ≤ b.actsF32

def rowsOf (weights : Bytes) (rows rowBytes : Nat) : List Bytes :=
  (List.range rows).map fun r => (weights.drop (r * rowBytes)).take rowBytes

/-- `matmul_quant_rows`; the kernel multiplies a row with the activations. -/
def matmulQuantRows (kernel : Bytes → Option α) (t : GgmlType) (weights : Bytes) (rows cols : Nat)
    (b : Buffers) : Option (List α) :=
  if cols = 0 ∨ b.acts ≠ cols ∨ b.out ≠ rows then none
  else do
    let rowBytes ← quantRowBytes t cols
    let total ← checked (rowBytes * rows)
    if weights.length ≠ total ∨ ¬ b.suffice t cols rowBytes then none
    else (rowsOf weights rows rowBytes).mapM kernel

/-! ## When the sizes agree -/

theorem checked_eq_some : checked n = some m ↔ n < 2 ^ 64 ∧ n = m := by
  simp [checked]

theorem blockBytes_agree (hrows : rows ≠ 0) (hpos : 0 < elements)
    (h : blockBytes elements size (cols * rows) = some total) :
    (∃ rowBytes, blockBytes elements size cols = some rowBytes ∧ total = rows * rowBytes) ↔
      elements ∣ cols := by
  constructor
  · rintro ⟨rowBytes, hrow, -⟩
    by_contra hno
    rw [blockBytes, if_pos (mt Nat.dvd_of_mod_eq_zero hno)] at hrow
    cases hrow
  rintro ⟨k, rfl⟩
  have hdiv : elements * k * rows / elements = rows * k := by
    rw [Nat.mul_assoc, Nat.mul_div_cancel_left _ hpos, Nat.mul_comm]
  rw [blockBytes, if_neg (by simp [Nat.mul_assoc]), checked_eq_some, hdiv, Nat.mul_assoc] at h
  obtain ⟨hlt, rfl⟩ := h
  refine ⟨k * size, ?_, rfl⟩
  have hle : k * size ≤ rows * (k * size) := Nat.le_mul_of_pos_left _ (Nat.pos_of_ne_zero hrows)
  rw [blockBytes, if_neg (by simp), Nat.mul_div_cancel_left _ hpos, checked_eq_some]
  exact ⟨by omega, rfl⟩

theorem superBlockCount_bounds (n : Nat) :
    n ≤ superBlockCount n * 256 ∧ superBlockCount n * 256 < n + 256 := by
  unfold superBlockCount
  split <;> omega

theorem superBlocks_agree (hrows : rows ≠ 0)
    (h : checked (superBlockCount (cols * rows) * 144) = some total) :
    (∃ rowBytes, checked (superBlockCount cols * 144) = some rowBytes ∧ total = rows * rowBytes) ↔
      rows * (superBlockCount cols * 256 - cols) < 256 := by
  obtain ⟨hlt, rfl⟩ := checked_eq_some.mp h
  obtain ⟨hge, hbelow⟩ := superBlockCount_bounds (cols * rows)
  obtain ⟨hge', hbelow'⟩ := superBlockCount_bounds cols
  have hcols : cols ≤ cols * rows := Nat.le_mul_of_pos_right _ (Nat.pos_of_ne_zero hrows)
  have hmul : cols * rows ≤ rows * superBlockCount cols * 256 := by
    rw [Nat.mul_comm cols, Nat.mul_assoc]
    exact Nat.mul_le_mul_left rows hge'
  rw [Nat.mul_sub, ← Nat.mul_assoc, Nat.mul_comm rows cols]
  constructor
  · rintro ⟨rowBytes, hrow, htotal⟩
    obtain ⟨-, rfl⟩ := checked_eq_some.mp hrow
    rw [← Nat.mul_assoc] at htotal
    omega
  · intro hpad
    refine ⟨_, checked_eq_some.mpr ⟨by omega, rfl⟩, ?_⟩
    rw [← Nat.mul_assoc]
    omega

def GgmlType.RowsFit (t : GgmlType) (rows cols : Nat) : Prop :=
  match t with
  | .f32 | .f16 => True
  | .q4K => rows * (superBlockCount cols * 256 - cols) < 256
  | .q6K => 256 ∣ cols
  | .q50 | .q80 => 32 ∣ cols

theorem quantRowBytes_agree {t : GgmlType} (hrows : rows ≠ 0)
    (h : quantRowBytes t (cols * rows) = some total) :
    (∃ rowBytes, quantRowBytes t cols = some rowBytes ∧ total = rows * rowBytes) ↔
      t.RowsFit rows cols := by
  have hplain : ∀ size n, checked (n * size) = blockBytes 1 size n := by
    simp [blockBytes, Nat.mod_one]
  cases t with
  | f32 | f16 =>
    simp only [quantRowBytes, hplain] at h ⊢
    simpa [GgmlType.RowsFit] using blockBytes_agree hrows Nat.one_pos h
  | q4K => exact superBlocks_agree hrows h
  | q6K | q50 | q80 => exact blockBytes_agree hrows (by decide) h

theorem tensorBytes_length {t : GgmlType} {weights : Bytes}
    (h : tensorBytes t rows cols start offset buffer = some weights) :
    quantRowBytes t (cols * rows) = some weights.length := by
  simp only [tensorBytes, Option.bind_eq_bind, Option.bind_eq_some_iff, checked_eq_some] at h
  obtain ⟨n, ⟨-, rfl⟩, size, hsize, _, ⟨-, rfl⟩, _, ⟨-, rfl⟩, hslice⟩ := h
  split at hslice
  · cases hslice
  cases hslice
  rw [length_drop, length_take, Nat.min_eq_left (by omega), Nat.add_sub_cancel_left]
  exact hsize

theorem quantRowBytes_lt {t : GgmlType} (h : quantRowBytes t n = some size) : size < 2 ^ 64 := by
  cases t with
  | _ =>
    simp only [quantRowBytes, blockBytes, Option.ite_none_left_eq_some, checked_eq_some] at h
    omega

/-- The slice is as long as the rows, and the product takes it and works on row after row. -/
def Agrees (t : GgmlType) (rows cols : Nat) (weights : Bytes) : Prop :=
  ∃ rowBytes, quantRowBytes t cols = some rowBytes ∧ weights.length = rows * rowBytes ∧
    ∀ (α : Type) (kernel : Bytes → Option α) (b : Buffers), b.acts = cols → b.out = rows →
      b.suffice t cols rowBytes →
      matmulQuantRows kernel t weights rows cols b = (rowsOf weights rows rowBytes).mapM kernel

/--
The sizes of a matrix agree exactly if its rows are whole blocks, or for Q4_K if what is missing
in the last blocks of all rows together is less than one block.
-/
theorem quant_sizes_agree (t : GgmlType) (start offset : Nat) (buffer : Bytes)
    (hrows : rows ≠ 0) (hcols : cols ≠ 0)
    (hslice : tensorBytes t rows cols start offset buffer = some weights) :
    Agrees t rows cols weights ↔ t.RowsFit rows cols := by
  have hlength := tensorBytes_length hslice
  rw [← quantRowBytes_agree hrows hlength]
  refine exists_congr fun rowBytes => and_congr_right fun hrow => and_iff_left_of_imp ?_
  intro htotal α kernel b hacts hout hb
  have hlt := quantRowBytes_lt hlength
  rw [htotal, Nat.mul_comm] at hlt
  have hsizes : ¬(cols = 0 ∨ b.acts ≠ cols ∨ b.out ≠ rows) := by simp [hcols, hacts, hout]
  simp only [matmulQuantRows, if_neg hsizes, hrow, checked, if_pos hlt, Option.bind_eq_bind,
    Option.bind_some]
  rw [if_neg (by simp [htotal, Nat.mul_comm, hb])]

theorem quant_sizes_agree_block : Agrees .q80 1 32 (List.replicate 34 0) :=
  (quant_sizes_agree .q80 0 0 (List.replicate 34 0) Nat.one_ne_zero (by decide)
    (by decide)).mpr (Nat.dvd_refl 32)

/-- Two rows of half a block, and two rows of 576 elements. -/
theorem quant_sizes_differ : (tensorBytes .q80 2 16 0 0 (List.replicate 34 0)).isSome ∧
    quantRowBytes .q80 16 = none ∧
    quantRowBytes .q4K (576 * 2) = some 720 ∧ quantRowBytes .q4K 576 = some 432 := by
  decide

end SlmOs.Inference
