import SlmOs.Foundation.Wire

/-!
# The protobuf wire format

`runtime/src/loader/protobuf.rs`.  An iterator is known by the part of its buffer that is
left; a slice of the buffer is the list of its bytes.
-/

namespace SlmOs.Onnx

open Foundation List

inductive WireType where
  | varint
  | fixed64
  | lengthDelimited
  | fixed32
  deriving DecidableEq, Repr

inductive ParseError where
  | unexpectedEof
  | invalidVarint
  | invalidWireType (v : Nat)
  | lengthOverflow
  | invalidFieldNumber
  deriving DecidableEq, Repr

def WireType.fromU8 : Nat → Except ParseError WireType
  | 0 => .ok .varint
  | 1 => .ok .fixed64
  | 2 => .ok .lengthDelimited
  | 5 => .ok .fixed32
  | other => .error (.invalidWireType other)

inductive FieldData where
  | varint (v : Nat)
  | fixed32 (v : Nat)
  | fixed64 (v : Nat)
  | bytes (b : Bytes)
  deriving DecidableEq, Repr

structure ProtoField where
  fieldNumber : Nat
  wireType : WireType
  data : FieldData
  deriving DecidableEq, Repr

def maxVarintBits : Nat := 64

def maxVarintBytes : Nat := 10

/-- The loop of `decode_varint` from its byte `i` on. -/
def decodeVarintFrom (value shift i : Nat) : Bytes → Except ParseError (Nat × Nat)
  | [] => .error .unexpectedEof
  | byte :: rest =>
    if maxVarintBits ≤ shift then .error .invalidVarint
    else
      let value := value ||| ((byte.toNat &&& 0x7F) <<< shift) % 2 ^ 64
      if byte.toNat &&& 0x80 = 0 then .ok (value, i + 1)
      else if maxVarintBytes ≤ i + 1 then .error .invalidVarint
      else decodeVarintFrom value (shift + 7) (i + 1) rest

def decodeVarint (data : Bytes) : Except ParseError (Nat × Nat) := decodeVarintFrom 0 0 0 data

def readU32Le (data : Bytes) : Except ParseError Nat :=
  if data.length < 4 then .error .unexpectedEof else .ok (leNat (data.take 4))

def readU64Le (data : Bytes) : Except ParseError Nat :=
  if data.length < 8 then .error .unexpectedEof else .ok (leNat (data.take 8))

def readValue (wireType : WireType) (valueData : Bytes) : Except ParseError (FieldData × Nat) :=
  match wireType with
  | .varint => do
      let (v, len) ← decodeVarint valueData
      return (.varint v, len)
  | .fixed32 => do
      let v ← readU32Le valueData
      return (.fixed32 v, 4)
  | .fixed64 => do
      let v ← readU64Le valueData
      return (.fixed64 v, 8)
  | .lengthDelimited => do
      let (len, lenBytes) ← decodeVarint valueData
      if valueData.length - lenBytes < len then .error .lengthOverflow
      else return (.bytes ((valueData.drop lenBytes).take len), lenBytes + len)

/-- The field at the start of what is left, and the number of bytes that it takes. -/
def readField (rest : Bytes) : Except ParseError (ProtoField × Nat) := do
  let (tag, tagLen) ← decodeVarint rest
  let fieldNumber := (tag >>> 3) % 2 ^ 32
  if fieldNumber = 0 then .error .invalidFieldNumber
  else
    let wireType ← WireType.fromU8 (tag &&& 7)
    if rest.length < tagLen then .error .unexpectedEof
    else
      let (data, consumed) ← readValue wireType (rest.drop tagLen)
      return (⟨fieldNumber, wireType, data⟩, tagLen + consumed)

/-- `ProtoIter::next`; the position moves only with a field. -/
def ProtoIter.next : Next ParseError ProtoField := fun rest =>
  match rest with
  | [] => none
  | _ :: _ =>
    match readField rest with
    | .error e => some (.error e, rest)
    | .ok (field, consumed) => some (.ok field, rest.drop consumed)

def fieldAsU64 (field : ProtoField) : Nat :=
  match field.data with
  | .varint v => v
  | _ => 0

def asI64 (v : Nat) : Int := if v < 2 ^ 63 then v else v - 2 ^ 64

def fieldAsI64 (field : ProtoField) : Int :=
  match field.data with
  | .varint v => asI64 v
  | _ => 0

def fieldAsBytes (field : ProtoField) : Option Bytes :=
  match field.data with
  | .bytes b => some b
  | _ => none

def fieldAsStr (field : ProtoField) : Option Bytes := fieldAsBytes field

def PackedVarintIter.next : Next ParseError Nat := fun rest =>
  match rest with
  | [] => none
  | _ :: _ =>
    match decodeVarint rest with
    | .error e => some (.error e, rest)
    | .ok (v, len) => some (.ok v, rest.drop len)

/-! ## What is consumed -/

def endsVarint (b : UInt8) : Bool := decide (b.toNat < 128)

theorem and_high_bit : b.toNat &&& 0x80 = 0 ↔ endsVarint b = true := by
  have hall : ∀ n : Fin 256, n.val &&& 0x80 = 0 ↔ n.val < 128 := by decide +kernel
  simpa [endsVarint] using hall ⟨b.toNat, b.toNat_lt⟩

theorem decodeVarintFrom_ok (h : decodeVarintFrom value shift i data = .ok (v, len)) :
    ∃ n, len = i + n ∧ 0 < n ∧ n ≤ data.length ∧ (data.take n).countP endsVarint = 1 := by
  induction data generalizing value shift i with
  | nil => cases h
  | cons byte rest ih =>
    simp only [decodeVarintFrom] at h
    split_ifs at h with hshift hlast hmany
    · cases h
      have hends := and_high_bit.mp hlast
      exact ⟨1, rfl, one_pos, by simp, by simp [hends]⟩
    obtain ⟨n, hlen, hpos, hle, hcount⟩ := ih h
    have hgoes : ¬ endsVarint byte = true := fun hends => hlast (and_high_bit.mpr hends)
    refine ⟨n + 1, by omega, n.succ_pos, by simpa using hle, ?_⟩
    simpa [countP_cons, hgoes] using hcount

theorem decodeVarint_ok (h : decodeVarint data = .ok (v, len)) :
    0 < len ∧ len ≤ data.length ∧ (data.take len).countP endsVarint = 1 := by
  obtain ⟨n, hlen, hpos, hle, hcount⟩ := decodeVarintFrom_ok h
  obtain rfl : len = n := by omega
  exact ⟨hpos, hle, hcount⟩

def FieldData.slice : FieldData → Bytes
  | .bytes b => b
  | _ => []

theorem readValue_ok (h : readValue w data = .ok (value, len)) :
    len ≤ data.length ∧ ∃ front, data.take len = front ++ value.slice ∧ 0 < front.length := by
  cases w with
  | varint =>
    obtain ⟨⟨v, n⟩, hvarint, h⟩ := bind_eq_ok.mp h
    cases h
    obtain ⟨hpos, hle, -⟩ := decodeVarint_ok hvarint
    exact ⟨hle, data.take len, (append_nil _).symm, by simpa using ⟨hpos, by omega⟩⟩
  | fixed32 | fixed64 =>
    obtain ⟨v, hread, h⟩ := bind_eq_ok.mp h
    cases h
    simp only [readU32Le, readU64Le] at hread
    split at hread
    · cases hread
    rename_i hle
    exact ⟨not_lt.mp hle, _, (append_nil _).symm, by simp; omega⟩
  | lengthDelimited =>
    obtain ⟨⟨n, lenBytes⟩, hvarint, h⟩ := bind_eq_ok.mp h
    obtain ⟨hpos, hle, -⟩ := decodeVarint_ok hvarint
    dsimp only at h
    split at h
    · cases h
    cases h
    exact ⟨by omega, data.take lenBytes, take_add, by simpa using ⟨hpos, by omega⟩⟩

theorem readField_ok (h : readField data = .ok (field, len)) :
    len ≤ data.length ∧ ∃ front, data.take len = front ++ field.data.slice ∧ 2 ≤ front.length := by
  simp only [readField, bind_eq_ok] at h
  obtain ⟨⟨tag, tagLen⟩, hvarint, h⟩ := h
  obtain ⟨hpos, hle, -⟩ := decodeVarint_ok hvarint
  split at h
  · cases h
  obtain ⟨w, -, h⟩ := bind_eq_ok.mp h
  split at h
  · cases h
  obtain ⟨⟨value, consumed⟩, hvalue, h⟩ := bind_eq_ok.mp h
  cases h
  obtain ⟨hrest, front, hfront, htwo⟩ := readValue_ok hvalue
  rw [length_drop] at hrest
  refine ⟨by omega, data.take tagLen ++ front, ?_, ?_⟩
  · rw [take_add, hfront, append_assoc]
  · rw [length_append, length_take]
    omega

theorem protoIter_ok (h : ProtoIter.next data = some (.ok field, rest)) :
    ∃ front, data = front ++ field.data.slice ++ rest ∧ 2 ≤ front.length := by
  cases data with
  | nil => cases h
  | cons b bs =>
    simp only [ProtoIter.next] at h
    split at h
    · simp at h
    rename_i len hread
    cases h
    obtain ⟨-, front, hfront, htwo⟩ := readField_ok hread
    exact ⟨front, by rw [← hfront, take_append_drop], htwo⟩

theorem protoIter_advances : Advances ProtoIter.next where
  empty := rfl
  item := by
    intro data field rest h
    obtain ⟨front, rfl, htwo⟩ := protoIter_ok h
    rw [length_append, length_append]
    omega

theorem packedVarintIter_advances : Advances PackedVarintIter.next where
  empty := rfl
  item := by
    intro rest v rest' h
    cases rest with
    | nil => cases h
    | cons b bs =>
      simp only [PackedVarintIter.next] at h
      split at h
      · simp at h
      rename_i v len hv
      cases h
      have hpos := (decodeVarint_ok hv).1
      simp
      omega

end SlmOs.Onnx
