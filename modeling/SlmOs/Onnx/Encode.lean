import SlmOs.Onnx.Protobuf

/-!
# Writing protobuf messages

The encoding of fields, which `ProtoIter` reads back: a loop over an encoded message goes
through its fields in order.
-/

namespace SlmOs.Onnx

open Foundation FieldData List UInt8 Nat

/-- The number in seven bits a byte, in at most `more + 1` bytes. -/
def encodeVarintFrom : Nat → Nat → Bytes
  | 0, n => [ofNat n]
  | more + 1, n =>
    if n < 128 then [ofNat n]
    else ofNat (n % 128 + 128) :: encodeVarintFrom more (n / 128)

def encodeVarint (n : Nat) : Bytes := encodeVarintFrom (maxVarintBytes - 1) n

def FieldData.wireType : FieldData → WireType
  | .varint _ => .varint
  | .fixed32 _ => .fixed32
  | .fixed64 _ => .fixed64
  | .bytes _ => .lengthDelimited

def WireType.code : WireType → Nat
  | .varint => 0
  | .fixed64 => 1
  | .lengthDelimited => 2
  | .fixed32 => 5

def FieldData.encode : FieldData → Bytes
  | .varint v => encodeVarint v
  | .fixed32 v => toLe 4 v
  | .fixed64 v => toLe 8 v
  | .bytes b => encodeVarint b.length ++ b

def FieldData.Valid : FieldData → Prop
  | .varint v => v < 2 ^ 64
  | .fixed32 v => v < 2 ^ 32
  | .fixed64 v => v < 2 ^ 64
  | .bytes b => b.length < 2 ^ 64

structure RawField where
  number : Nat
  data : FieldData
  deriving DecidableEq, Repr

namespace RawField

def encode (f : RawField) : Bytes :=
  encodeVarint (f.number * 8 + f.data.wireType.code) ++ f.data.encode

structure Valid (f : RawField) : Prop where
  number_pos : 0 < f.number
  number_lt : f.number < 2 ^ 29
  data : f.data.Valid

def proto (f : RawField) : ProtoField := ⟨f.number, f.data.wireType, f.data⟩

end RawField

section

variable {rest : Bytes} {n : Nat}

theorem payload_bits (h : n < 256) : (ofNat n).toNat &&& 0x7F = n % 128 := by
  rw [toNat_ofNat_of_lt' h]
  exact and_two_pow_sub_one_eq_mod n 7

theorem or_group (hvalue : value < 2 ^ shift) (hfits : value + x * 2 ^ shift < 2 ^ 64) :
    value ||| (x <<< shift) % 2 ^ 64 = value + x * 2 ^ shift := by
  rw [Nat.shiftLeft_eq, Nat.mod_eq_of_lt (by omega), Nat.or_comm, Nat.mul_comm x,
    ← two_pow_add_eq_or_of_lt hvalue, add_comm]

theorem high_bit_ofNat (h : n < 256) : (ofNat n).toNat &&& 0x80 = 0 ↔ n < 128 := by
  rw [and_high_bit, endsVarint, toNat_ofNat_of_lt' h, decide_eq_true_iff]

theorem decodeVarintFrom_last (hi : i < maxVarintBytes) (hn : n < 128)
    (hvalue : value < 2 ^ (7 * i)) (hfits : value + n * 2 ^ (7 * i) < 2 ^ 64) :
    decodeVarintFrom value (7 * i) i (ofNat n :: rest) = .ok (value + n * 2 ^ (7 * i), i + 1) := by
  have hshift : ¬ maxVarintBits ≤ 7 * i := by
    simp only [maxVarintBits, maxVarintBytes] at hi ⊢
    omega
  have hbyte : n < 256 := by omega
  rw [decodeVarintFrom, if_neg hshift]
  simp only [payload_bits hbyte, mod_eq_of_lt hn, if_pos ((high_bit_ofNat hbyte).mpr hn),
    or_group hvalue hfits]

theorem decodeVarintFrom_encode (hi : i + more + 1 = maxVarintBytes) (hn : n < 128 ^ (more + 1))
    (hvalue : value < 2 ^ (7 * i)) (hfits : value + n * 2 ^ (7 * i) < 2 ^ 64) :
    decodeVarintFrom value (7 * i) i (encodeVarintFrom more n ++ rest) =
      .ok (value + n * 2 ^ (7 * i), i + (encodeVarintFrom more n).length) := by
  induction more generalizing n value i with
  | zero => exact decodeVarintFrom_last (by omega) (by simpa using hn) hvalue hfits
  | succ more ih =>
    rw [encodeVarintFrom]
    split
    · rename_i hsmall
      exact decodeVarintFrom_last (by omega) hsmall hvalue hfits
    rename_i hlarge
    have hshift : ¬ maxVarintBits ≤ 7 * i := by
      simp only [maxVarintBits, maxVarintBytes] at hi ⊢
      omega
    have hmore : ¬ maxVarintBytes ≤ i + 1 := by omega
    have hbyte : n % 128 + 128 < 256 := by omega
    have hbits : (n % 128 + 128) % 128 = n % 128 := by omega
    have hgoes : ¬ (UInt8.ofNat (n % 128 + 128)).toNat &&& 0x80 = 0 := by
      rw [high_bit_ofNat hbyte]
      omega
    -- the groups of seven bits add up to the number
    have hpow : (2 : Nat) ^ (7 * (i + 1)) = 128 * 2 ^ (7 * i) := by
      rw [Nat.mul_add, Nat.pow_add, Nat.mul_comm]
    have hsplit : n * 2 ^ (7 * i) = n % 128 * 2 ^ (7 * i) + n / 128 * 2 ^ (7 * (i + 1)) := by
      rw [hpow, ← mul_assoc, ← add_mul, mul_comm (n / 128), mod_add_div]
    have hlow : n % 128 * 2 ^ (7 * i) ≤ 127 * 2 ^ (7 * i) := mul_le_mul_right _ (by omega)
    have hgroup : value ||| ((n % 128) <<< (7 * i)) % 2 ^ 64 =
        value + n % 128 * 2 ^ (7 * i) := or_group hvalue (by omega)
    have hn' : n / 128 < 128 ^ (more + 1) := by
      apply Nat.div_lt_of_lt_mul
      rwa [Nat.pow_succ, Nat.mul_comm] at hn
    have hrest := ih (n := n / 128) (i := i + 1) (by omega) hn'
      (show value + n % 128 * 2 ^ (7 * i) < 2 ^ (7 * (i + 1)) by omega) (by omega)
    have hnext : 7 * i + 7 = 7 * (i + 1) := by omega
    rw [List.cons_append, decodeVarintFrom, if_neg hshift]
    simp only [payload_bits hbyte, hbits, hgroup, if_neg hgoes, if_neg hmore, hnext, hrest,
      List.length_cons]
    rw [hsplit, add_assoc, add_assoc i, add_comm 1]

theorem decodeVarint_encode (h : n < 2 ^ 64) (rest : Bytes) :
    decodeVarint (encodeVarint n ++ rest) = .ok (n, (encodeVarint n).length) := by
  have hn : n < 128 ^ 10 := lt_trans h (by norm_num)
  have hdecode : decodeVarintFrom 0 (7 * 0) 0 (encodeVarintFrom 9 n ++ rest) =
      .ok (0 + n * 2 ^ (7 * 0), 0 + (encodeVarintFrom 9 n).length) :=
    decodeVarintFrom_encode rfl hn (by simp) (by simpa using h)
  simpa [decodeVarint, encodeVarint, maxVarintBytes] using hdecode

theorem encodeVarint_ne_nil (n : Nat) : encodeVarint n ≠ [] := by
  rw [encodeVarint, show maxVarintBytes - 1 = 8 + 1 from rfl, encodeVarintFrom]
  split <;> simp

theorem fromU8_code (w : WireType) : WireType.fromU8 w.code = .ok w := by
  cases w <;> rfl

theorem code_lt (w : WireType) : w.code < 8 := by
  cases w <;> decide

theorem readValue_encode (h : d.Valid) :
    readValue d.wireType (d.encode ++ rest) = .ok (d, d.encode.length) := by
  cases d with
  | varint v =>
    simp only [readValue, wireType, encode, decodeVarint_encode h rest]
    rfl
  | fixed32 v =>
    have hle : leNat (toLe 4 v) = v := leNat_toLe (by simpa [FieldData.Valid] using h)
    simp [readValue, wireType, encode, readU32Le, bind, Except.bind, pure, Except.pure, hle]
  | fixed64 v =>
    have hle : leNat (toLe 8 v) = v := leNat_toLe (by simpa [FieldData.Valid] using h)
    simp [readValue, wireType, encode, readU64Le, bind, Except.bind, pure, Except.pure, hle]
  | bytes b =>
    have hdecode := decodeVarint_encode h (b ++ rest)
    simp [readValue, wireType, encode, hdecode, bind, Except.bind, pure, Except.pure]

theorem readField_encode {f : RawField} (h : f.Valid) (rest : Bytes) :
    readField (f.encode ++ rest) = .ok (f.proto, f.encode.length) := by
  have hcode := code_lt f.data.wireType
  have hlt := h.number_lt
  have htag : f.number * 8 + f.data.wireType.code < 2 ^ 64 := by omega
  have hnumber : (f.number * 8 + f.data.wireType.code) >>> 3 % 2 ^ 32 = f.number := by
    rw [shiftRight_eq_div_pow]
    omega
  have hwire : (f.number * 8 + f.data.wireType.code) &&& 7 = f.data.wireType.code := by
    rw [show (7 : Nat) = 2 ^ 3 - 1 from rfl, and_two_pow_sub_one_eq_mod]
    omega
  rw [readField, RawField.encode, List.append_assoc, decodeVarint_encode htag]
  simp only [bind, Except.bind, hnumber, hwire, if_neg h.number_pos.ne', fromU8_code]
  simp [readValue_encode h.data, pure, Except.pure, RawField.proto]

theorem next_encode {f : RawField} (h : f.Valid) :
    ProtoIter.next (f.encode ++ rest) = some (.ok f.proto, rest) := by
  have hread := readField_encode h rest
  obtain ⟨x, xs, hx⟩ : ∃ x xs, f.encode ++ rest = x :: xs := by
    apply exists_cons_of_ne_nil
    simp [RawField.encode, encodeVarint_ne_nil]
  have hdrop : (x :: xs).drop f.encode.length = rest := by rw [← hx, drop_left]
  rw [hx] at hread ⊢
  simp only [ProtoIter.next, hread, hdrop]

theorem forEach_encode {σ κ : Type} {body : σ → ProtoField → Except ParseError σ} {s : σ}
    {raw : κ → RawField} {fs : List κ} (h : ∀ f ∈ fs, (raw f).Valid) :
    forEach ProtoIter.next body s (fs.flatMap fun f => (raw f).encode) =
      fs.foldlM (fun s f => body s (raw f).proto) s :=
  forEach_flatMap protoIter_advances fun f hf _ => next_encode (h f hf)

theorem forEach_packed {σ : Type} {body : σ → Nat → Except ParseError σ} {s : σ} {vs : List Nat}
    (h : ∀ v ∈ vs, v < 2 ^ 64) :
    forEach PackedVarintIter.next body s (vs.flatMap encodeVarint) = vs.foldlM body s := by
  apply forEach_flatMap packedVarintIter_advances
  intro v hv rest
  have hdecode := decodeVarint_encode (h v hv) rest
  obtain ⟨x, xs, hx⟩ : ∃ x xs, encodeVarint v ++ rest = x :: xs := by
    apply exists_cons_of_ne_nil
    simp [encodeVarint_ne_nil]
  have hdrop : (x :: xs).drop (encodeVarint v).length = rest := by rw [← hx, drop_left]
  rw [hx] at hdecode ⊢
  simp only [PackedVarintIter.next, hdecode, hdrop]

end

/-! ## The whole buffer -/

/-- The fields that `ProtoIter` yields one after the other, and what is left after them. -/
inductive Reads : Bytes → List ProtoField → Bytes → Prop
  | start (data : Bytes) : Reads data [] data
  | field {data data' rest : Bytes} {f : ProtoField} {fs : List ProtoField}
      (h : ProtoIter.next data = some (.ok f, data')) (hrest : Reads data' fs rest) :
      Reads data (f :: fs) rest

theorem reads_encode {fs : List RawField} (h : ∀ f ∈ fs, f.Valid) :
    Reads (fs.flatMap RawField.encode) (fs.map RawField.proto) [] := by
  induction fs with
  | nil => exact .start []
  | cons f fs ih =>
    obtain ⟨hf, hfs⟩ := forall_mem_cons.mp h
    rw [flatMap_cons, map_cons]
    exact .field (next_encode hf) (ih hfs)

theorem Reads.parts (h : Reads data fs rest) : ∃ fronts : List Bytes,
    fronts.length = fs.length ∧ (∀ front ∈ fronts, 2 ≤ front.length) ∧
      data = (zipWith (fun front f => front ++ f.data.slice) fronts fs).flatten ++ rest := by
  induction h with
  | start data => exact ⟨[], rfl, nofun, rfl⟩
  | field h hrest ih =>
    obtain ⟨front, rfl, htwo⟩ := protoIter_ok h
    obtain ⟨fronts, hlength, hfronts, rfl⟩ := ih
    refine ⟨front :: fronts, congrArg (· + 1) hlength, forall_mem_cons.mpr ⟨htwo, hfronts⟩, ?_⟩
    simp only [zipWith_cons_cons, flatten_cons, append_assoc]

/--
The reader yields the fields of an encoding and then ends.  On any buffer, what it has read is
the fields one after the other: at least two bytes each, and then the slice it refers to.
-/
theorem proto_reader_exact : (∀ fs : List RawField, (∀ f ∈ fs, f.Valid) →
      Reads (fs.flatMap RawField.encode) (fs.map RawField.proto) [] ∧ ProtoIter.next [] = none) ∧
    ∀ data fs rest, Reads data fs rest → ∃ fronts : List Bytes,
      fronts.length = fs.length ∧ (∀ front ∈ fronts, 2 ≤ front.length) ∧
        data = (zipWith (fun front f => front ++ f.data.slice) fronts fs).flatten ++ rest :=
  ⟨fun _ h => ⟨reads_encode h, rfl⟩, fun _ _ _ h => h.parts⟩

end SlmOs.Onnx
