import Mathlib

/-!
# Dot products of quantized blocks

A block of 256 weights has 4-bit quants, and a 6-bit scale and a 6-bit minimum for every
32 of them; a block of activations has 8-bit quants and their sums by 16.  The kernel adds
up integers and applies the scales of the two blocks at the end.
-/

namespace SlmOs.Inference

open Finset Nat

/-- A Q4_K block; `d` and `dmin` are read as the rationals they stand for. -/
structure Q4KBlock where
  d : ℚ
  dmin : ℚ
  scales : Nat → UInt8
  qs : Nat → UInt8

namespace Q4KBlock

variable (w : Q4KBlock)

def scale (i : Nat) : UInt8 :=
  if i < 4 then w.scales i &&& (0x3F : UInt8)
  else (w.scales (i + 4) &&& (0x0F : UInt8)) ||| ((w.scales (i - 4) >>> 6) <<< 4)

def min (i : Nat) : UInt8 :=
  if i < 4 then w.scales (i + 4) &&& (0x3F : UInt8)
  else (w.scales (i + 4) >>> 4) ||| ((w.scales i >>> 6) <<< 4)

/-- The quant of element `l` of sub-block `is`: low nibbles first, then high nibbles. -/
def nibble (is l : Nat) : Nat :=
  let q := w.qs (is / 2 * 32 + l)
  if is % 2 = 0 then (q &&& (0x0F : UInt8)).toNat else (q >>> 4).toNat

def dequantQ4KBlock (e : Nat) : ℚ :=
  w.d * (w.scale (e / 32)).toNat * w.nibble (e / 32) (e % 32) - w.dmin * (w.min (e / 32)).toNat

end Q4KBlock

structure Q8KBlock where
  d : ℚ
  qs : Nat → Int8
  bsums : Nat → Int16

/-- A result of 32-bit arithmetic; `none` if it overflows. -/
def i32 (x : Int) : Option Int := if -2 ^ 31 ≤ x ∧ x < 2 ^ 31 then some x else none

def accumulate (n : Nat) (term : Nat → Option Int) : Option Int :=
  (List.range n).foldlM (fun acc j => (term j).bind fun x => i32 (acc + x)) 0

section

variable (w : Q4KBlock) (a : Q8KBlock)

def minSum : Option Int :=
  accumulate 16 fun j => i32 ((a.bsums j).toInt * (w.min (j / 2)).toNat)

def product (is l : Nat) : Int := w.nibble is l * (a.qs (is * 32 + l)).toInt

def subBlock (is : Nat) : Option Int := accumulate 32 fun l => i32 (product w a is l)

def scaled (dot : Nat → Option Int) (is : Nat) : Option Int :=
  (dot is).bind fun acc => i32 ((w.scale is).toNat * acc)

def scaleSumOf (dot : Nat → Option Int) : Option Int :=
  accumulate 4 fun j => (scaled w dot (j * 2)).bind fun lo =>
    (scaled w dot (j * 2 + 1)).bind fun hi => i32 (lo + hi)

def scaleSum : Option Int := scaleSumOf w (subBlock w a)

def sdotLane (acc : Int) (is off lane : Nat) : Option Int :=
  i32 (acc + ∑ m ∈ range 4, product w a is (off + lane * 4 + m))

/-- Two `SDOT`s over 16 bytes each, and `vaddvq_s32` over the four lanes. -/
def sdotSubBlock (is : Nat) : Option Int :=
  accumulate 4 fun lane => (sdotLane w a 0 is 0 lane).bind fun acc => sdotLane w a acc is 16 lane

def scaleSumNeon : Option Int := scaleSumOf w (sdotSubBlock w a)

/-- What both kernels do with their `scale_sum`. -/
def blockValue (scaleSum : Option Int) : Option ℚ :=
  (minSum w a).bind fun m => scaleSum.map fun s => w.d * a.d * s - w.dmin * a.d * m

/-- `none` if the 32-bit arithmetic overflows. -/
def dotQ4KQ8KBlockScalar : Option ℚ := blockValue w a (scaleSum w a)

def dotQ4KQ8KBlockNeon : Option ℚ := blockValue w a (scaleSumNeon w a)

end

/-! ## No overflow -/

theorem i32_eq (h : x.natAbs ≤ n) (hn : n < 2 ^ 31) : i32 x = some x := if_pos (by omega)

theorem accumulate_eq {term : Nat → Option Int} {f : Nat → Int}
    (hterm : ∀ j < n, term j = some (f j)) (hf : ∀ j < n, (f j).natAbs ≤ b) (hb : n * b < 2 ^ 31) :
    accumulate n term = some (∑ j ∈ range n, f j) ∧ (∑ j ∈ range n, f j).natAbs ≤ n * b := by
  induction n with
  | zero => simp [accumulate]
  | succ n ih =>
    rw [succ_mul] at hb
    obtain ⟨hacc, hle⟩ := ih (fun j hj => hterm j (by omega)) (fun j hj => hf j (by omega))
      (by omega)
    have hn := hf n (by omega)
    rw [sum_range_succ, succ_mul]
    have hsum : (∑ j ∈ range n, f j + f n).natAbs ≤ n * b + b := by omega
    refine ⟨?_, hsum⟩
    unfold accumulate at hacc ⊢
    rw [List.range_succ, List.foldlM_append, hacc]
    simp [hterm n (by omega), i32_eq hsum hb]

theorem natAbs_mul_le {x y : Int} {m n : Nat} (hx : x.natAbs ≤ m) (hy : y.natAbs ≤ n) :
    (x * y).natAbs ≤ m * n := by
  rw [Int.natAbs_mul]
  exact Nat.mul_le_mul hx hy

theorem nibble_le (w : Q4KBlock) (is l : Nat) : w.nibble is l ≤ 15 := by
  have hq := (w.qs (is / 2 * 32 + l)).toNat_lt
  unfold Q4KBlock.nibble
  split
  · simpa using and_le_right
  simp [shiftRight_eq_div_pow]
  omega

theorem six_bits (a b : UInt8) : (a &&& (0x3F : UInt8)).toNat ≤ 63 ∧
    ((a &&& (0x0F : UInt8)) ||| ((b >>> 6) <<< 4)).toNat ≤ 63 ∧
    ((a >>> 4) ||| ((b >>> 6) <<< 4)).toNat ≤ 63 := by
  have hb : ((b >>> 6) <<< 4).toNat < 2 ^ 6 := by
    have := b.toNat_lt
    simp [shiftRight_eq_div_pow, shiftLeft_eq]
    omega
  have ha : (a >>> 4).toNat < 2 ^ 6 := by
    have := a.toNat_lt
    simp [shiftRight_eq_div_pow]
    omega
  have ha' : (a &&& (0x0F : UInt8)).toNat < 2 ^ 6 := by
    have := and_le_right (n := a.toNat) (m := 15)
    simp
    omega
  refine ⟨?_, ?_, ?_⟩
  · simpa using and_le_right (n := a.toNat) (m := 63)
  · rw [UInt8.toNat_or]
    exact le_of_lt_succ (or_lt_two_pow ha' hb)
  rw [UInt8.toNat_or]
  exact le_of_lt_succ (or_lt_two_pow ha hb)

theorem scale_le (w : Q4KBlock) (i : Nat) : (w.scale i).toNat ≤ 63 ∧ (w.min i).toNat ≤ 63 := by
  unfold Q4KBlock.scale Q4KBlock.min
  split
  · exact ⟨(six_bits _ 0).1, (six_bits _ 0).1⟩
  · exact ⟨(six_bits _ _).2.1, (six_bits _ _).2.2⟩

theorem qs_le (a : Q8KBlock) (i : Nat) : (a.qs i).toInt.natAbs ≤ 128 := by
  have := (a.qs i).le_toInt
  have := (a.qs i).toInt_lt
  omega

/-! ## What the loops compute -/

variable (w : Q4KBlock) (a : Q8KBlock)

theorem product_le (is l : Nat) : (product w a is l).natAbs ≤ 15 * 128 :=
  natAbs_mul_le (nibble_le w is l) (qs_le a _)

theorem subBlock_eq (is : Nat) : subBlock w a is = some (∑ l ∈ range 32, product w a is l) ∧
    (∑ l ∈ range 32, product w a is l).natAbs ≤ 32 * (15 * 128) :=
  accumulate_eq (fun l _ => i32_eq (product_le w a is l) (by decide))
    (fun l _ => product_le w a is l) (by decide)

theorem sdotSubBlock_eq (is : Nat) :
    sdotSubBlock w a is = some (∑ l ∈ range 32, product w a is l) := by
  have hfour : ∀ off, (∑ m ∈ range 4, product w a is (off + m)).natAbs ≤ 4 * (15 * 128) :=
    fun off => (accumulate_eq (fun _ _ => rfl) (fun m _ => product_le w a is _) (by decide)).2
  have hlane : ∀ lane, (0 + ∑ m ∈ range 4, product w a is (0 + lane * 4 + m) +
      ∑ m ∈ range 4, product w a is (16 + lane * 4 + m)).natAbs ≤ 8 * (15 * 128) := fun lane => by
    have h₁ := hfour (0 + lane * 4)
    have h₂ := hfour (16 + lane * 4)
    omega
  have hterm : ∀ lane, ((sdotLane w a 0 is 0 lane).bind fun acc => sdotLane w a acc is 16 lane) =
      some _ := fun lane => by
    rw [sdotLane, i32_eq (by simpa using hfour (0 + lane * 4)) (by decide), Option.bind_some]
    exact i32_eq (hlane lane) (by decide)
  rw [sdotSubBlock, (accumulate_eq (fun j _ => hterm j) (fun j _ => hlane j) (by decide)).1]
  simp only [sum_range_succ, sum_range_zero]
  congr 1
  ring

theorem scaleSumOf_eq {dot : Nat → Option Int} {f : Nat → Int} (hdot : ∀ is, dot is = some (f is))
    (hf : ∀ is, (f is).natAbs ≤ 32 * (15 * 128)) :
    scaleSumOf w dot = some (∑ is ∈ range 8, (w.scale is).toNat * f is) := by
  have hle : ∀ is, ((w.scale is).toNat * f is).natAbs ≤ 63 * (32 * (15 * 128)) := fun is =>
    natAbs_mul_le (scale_le w is).1 (hf is)
  have hscaled : ∀ is, scaled w dot is = some ((w.scale is).toNat * f is) := fun is => by
    rw [scaled, hdot, Option.bind_some]
    exact i32_eq (hle is) (by decide)
  have hpair : ∀ j, ((w.scale (j * 2)).toNat * f (j * 2) +
      (w.scale (j * 2 + 1)).toNat * f (j * 2 + 1)).natAbs ≤ 2 * (63 * (32 * (15 * 128))) := by
    intro j
    have h₁ := hle (j * 2)
    have h₂ := hle (j * 2 + 1)
    omega
  have hterm : ∀ j, ((scaled w dot (j * 2)).bind fun lo => (scaled w dot (j * 2 + 1)).bind fun hi =>
      i32 (lo + hi)) = some _ := fun j => by
    rw [hscaled, hscaled, Option.bind_some, Option.bind_some]
    exact i32_eq (hpair j) (by decide)
  rw [scaleSumOf, (accumulate_eq (fun j _ => hterm j) (fun j _ => hpair j) (by decide)).1]
  simp only [sum_range_succ, sum_range_zero]
  congr 1
  ring

def SumsRight : Prop := ∀ j < 16, (a.bsums j).toInt = ∑ l ∈ range 16, (a.qs (j * 16 + l)).toInt

theorem minSum_eq (hsums : SumsRight a) : minSum w a =
    some (∑ is ∈ range 8, (w.min is).toNat * ∑ l ∈ range 32, (a.qs (is * 32 + l)).toInt) := by
  have hb : ∀ j < 16, ((a.bsums j).toInt * (w.min (j / 2)).toNat).natAbs ≤ 16 * 128 * 63 := by
    intro j hj
    refine natAbs_mul_le ?_ (scale_le w _).2
    rw [hsums j hj]
    exact (accumulate_eq (fun _ _ => rfl) (fun l _ => qs_le a _) (by decide)).2
  have hhalf : ∀ is < 8, ∑ l ∈ range 32, (a.qs (is * 32 + l)).toInt =
      (a.bsums (is * 2)).toInt + (a.bsums (is * 2 + 1)).toInt := fun is his => by
    have hlo : is * 2 * 16 = is * 32 := by omega
    have hhi : ∀ l, (is * 2 + 1) * 16 + l = is * 32 + (16 + l) := fun l => by omega
    simp only [hsums (is * 2) (by omega), hsums (is * 2 + 1) (by omega), hlo, hhi]
    exact sum_range_add _ 16 16
  have hpairs : ∑ is ∈ range 8, ((w.min is).toNat : Int) *
      ∑ l ∈ range 32, (a.qs (is * 32 + l)).toInt = ∑ is ∈ range 8, ((w.min is).toNat : Int) *
        ((a.bsums (is * 2)).toInt + (a.bsums (is * 2 + 1)).toInt) :=
    sum_congr rfl fun is his => by rw [hhalf is (mem_range.mp his)]
  rw [minSum, (accumulate_eq (fun j hj => i32_eq (hb j hj) (by decide)) hb (by decide)).1, hpairs]
  norm_num [sum_range_succ]
  ring

theorem sum_subBlocks (f : Nat → ℚ) (n k : Nat) :
    ∑ e ∈ range (n * k), f e = ∑ is ∈ range n, ∑ l ∈ range k, f (is * k + l) := by
  induction n with
  | zero => simp
  | succ n ih => rw [succ_mul, sum_range_add, ih, sum_range_succ]

theorem sum_dequantized : ∑ e ∈ range 256, w.dequantQ4KBlock e * (a.d * (a.qs e).toInt) =
    w.d * a.d * (∑ is ∈ range 8, (w.scale is).toNat * ∑ l ∈ range 32, product w a is l : Int) -
      w.dmin * a.d * (∑ is ∈ range 8, (w.min is).toNat *
        ∑ l ∈ range 32, (a.qs (is * 32 + l)).toInt : Int) := by
  have hsub : ∀ is, ∑ l ∈ range 32,
      w.dequantQ4KBlock (is * 32 + l) * (a.d * (a.qs (is * 32 + l)).toInt) =
      w.d * a.d * ((w.scale is).toNat * ∑ l ∈ range 32, (product w a is l : ℚ)) -
        w.dmin * a.d * ((w.min is).toNat * ∑ l ∈ range 32, ((a.qs (is * 32 + l)).toInt : ℚ)) := by
    intro is
    simp only [mul_sum, ← sum_sub_distrib]
    refine sum_congr rfl fun l hl => ?_
    have hl := mem_range.mp hl
    have hdiv : (is * 32 + l) / 32 = is := by omega
    have hmod : (is * 32 + l) % 32 = l := by omega
    simp only [Q4KBlock.dequantQ4KBlock, hdiv, hmod, product]
    push_cast
    ring
  rw [show 256 = 8 * 32 from rfl, sum_subBlocks]
  simp only [hsub, sum_sub_distrib, ← mul_sum]
  push_cast
  rfl

/--
With right sums of its quants, a block of activations gives the kernels no overflow: they
have the same `scale_sum`, and their value is the sum of the 256 products with the
dequantized weights.
-/
theorem dot_eq_dequantized (hsums : SumsRight a) : ∃ s v,
    scaleSum w a = some s ∧ scaleSumNeon w a = some s ∧
      dotQ4KQ8KBlockScalar w a = some v ∧ dotQ4KQ8KBlockNeon w a = some v ∧
      v = ∑ e ∈ range 256, w.dequantQ4KBlock e * (a.d * (a.qs e).toInt) := by
  have hdot := fun is => (subBlock_eq w a is).2
  have hscalar := scaleSumOf_eq w (fun is => (subBlock_eq w a is).1) hdot
  have hneon := scaleSumOf_eq w (sdotSubBlock_eq w a) hdot
  have hmin := minSum_eq w a hsums
  refine ⟨_, _, hscalar, hneon, ?_, ?_, (sum_dequantized w a).symm⟩
  · rw [dotQ4KQ8KBlockScalar, scaleSum, hscalar, blockValue, hmin]
    rfl
  rw [dotQ4KQ8KBlockNeon, scaleSumNeon, hneon, blockValue, hmin]
  rfl

def ones : Q8KBlock := ⟨1, fun _ => 1, fun _ => 16⟩

theorem dot_eq_dequantized_ones :
    ∃ v, dotQ4KQ8KBlockScalar ⟨1, 1, fun _ => 63, fun _ => 255⟩ ones = some v := by
  obtain ⟨-, v, -, -, hv, -⟩ := dot_eq_dequantized ⟨1, 1, fun _ => 63, fun _ => 255⟩ ones
    fun _ _ => by simp [ones]
  exact ⟨v, hv⟩

end SlmOs.Inference
