import SlmOs.Onnx.Encode
import SlmOs.Onnx.Parser

/-!
# ONNX files

The messages of an ONNX file, each a list of fields in any order, with other fields between
those that the parser knows, and what a file says: its nodes, initializers, inputs and
outputs.
-/

namespace SlmOs.Onnx

open Foundation

structure OtherField (known : List Nat) where
  field : RawField
  valid : field.Valid
  unknown : field.number ∉ known

def encodeMessage {κ : Type} (raw : κ → RawField) (fs : List κ) : Bytes :=
  fs.flatMap fun f => (raw f).encode

def lastOf {κ α : Type} (get : κ → Option α) (start : α) (fs : List κ) : α :=
  fs.foldl (fun a f => (get f).getD a) start

@[simp] theorem lastOf_append {κ α : Type} (get : κ → Option α) (start : α) (fs : List κ) (f : κ) :
    lastOf get start (fs ++ [f]) = (get f).getD (lastOf get start fs) := by
  simp [lastOf]

/-! ## Shapes of inputs and outputs -/

inductive DimField where
  | value (v : UInt64)
  | other (f : OtherField [dimValue])

def DimField.raw : DimField → RawField
  | .value v => ⟨dimValue, .varint v.toNat⟩
  | .other f => f.field

def DimField.size : DimField → Option Nat
  | .value v => some v.toNat
  | .other _ => none

inductive ShapeField where
  | dim (d : List DimField)
  | other (f : OtherField [shapeDim])

def ShapeField.raw : ShapeField → RawField
  | .dim d => ⟨shapeDim, .bytes (encodeMessage DimField.raw d)⟩
  | .other f => f.field

def ShapeField.sizes : ShapeField → List Nat
  | .dim d => d.filterMap DimField.size
  | .other _ => []

inductive TensorTypeField where
  | elemType (n : UInt64)
  | shape (s : List ShapeField)
  | other (f : OtherField [tensorTypeElemType, tensorTypeShape])

def TensorTypeField.raw : TensorTypeField → RawField
  | .elemType n => ⟨tensorTypeElemType, .varint n.toNat⟩
  | .shape s => ⟨tensorTypeShape, .bytes (encodeMessage ShapeField.raw s)⟩
  | .other f => f.field

def TensorTypeField.sizes : TensorTypeField → List Nat
  | .shape s => s.flatMap ShapeField.sizes
  | _ => []

inductive TypeField where
  | tensorType (t : List TensorTypeField)
  | other (f : OtherField [typeTensorType])

def TypeField.raw : TypeField → RawField
  | .tensorType t => ⟨typeTensorType, .bytes (encodeMessage TensorTypeField.raw t)⟩
  | .other f => f.field

def TypeField.sizes : TypeField → List Nat
  | .tensorType t => t.flatMap TensorTypeField.sizes
  | .other _ => []

inductive ValueInfoField where
  | name (n : Bytes)
  | type (t : List TypeField)
  | other (f : OtherField [valueInfoName, valueInfoType])

namespace ValueInfoField

def raw : ValueInfoField → RawField
  | .name n => ⟨valueInfoName, .bytes n⟩
  | .type t => ⟨valueInfoType, .bytes (encodeMessage TypeField.raw t)⟩
  | .other f => f.field

def sizes : ValueInfoField → List Nat
  | .type t => t.flatMap TypeField.sizes
  | _ => []

def name? : ValueInfoField → Option Bytes
  | .name n => some n
  | _ => none

end ValueInfoField

abbrev ValueInfoProto := List ValueInfoField

def ValueInfoProto.name (v : ValueInfoProto) : Bytes := lastOf ValueInfoField.name? [] v

def ValueInfoProto.dims (v : ValueInfoProto) : List Nat := v.flatMap ValueInfoField.sizes

/-! ## Nodes and tensors -/

inductive NodeField where
  | input (n : Bytes)
  | output (n : Bytes)
  | name (n : Bytes)
  | opType (n : Bytes)
  | attr (a : Bytes)
  | other (f : OtherField [nodeInput, nodeOutput, nodeName, nodeOpType, nodeAttribute])

namespace NodeField

def raw : NodeField → RawField
  | .input n => ⟨nodeInput, .bytes n⟩
  | .output n => ⟨nodeOutput, .bytes n⟩
  | .name n => ⟨nodeName, .bytes n⟩
  | .opType n => ⟨nodeOpType, .bytes n⟩
  | .attr a => ⟨nodeAttribute, .bytes a⟩
  | .other f => f.field

def input? : NodeField → Option Bytes
  | .input n => some n
  | _ => none

def output? : NodeField → Option Bytes
  | .output n => some n
  | _ => none

def name? : NodeField → Option Bytes
  | .name n => some n
  | _ => none

def opType? : NodeField → Option Bytes
  | .opType n => some n
  | _ => none

end NodeField

abbrev NodeProto := List NodeField

namespace NodeProto

def inputs (n : NodeProto) : List Bytes := n.filterMap NodeField.input?

def outputs (n : NodeProto) : List Bytes := n.filterMap NodeField.output?

def name (n : NodeProto) : Bytes := lastOf NodeField.name? [] n

def opType (n : NodeProto) : Bytes := lastOf NodeField.opType? [] n

end NodeProto

inductive TensorField where
  /-- Dimensions, packed. -/
  | dims (vs : List UInt64)
  | dim (v : UInt64)
  | dataType (n : UInt64)
  | floatData (b : Bytes)
  | int64Data (b : Bytes)
  | name (n : Bytes)
  | rawData (b : Bytes)
  | other (f : OtherField [tensorDims, tensorDataType, tensorFloatData, tensorInt64Data,
      tensorName, tensorRawData])

namespace TensorField

def raw : TensorField → RawField
  | .dims vs => ⟨tensorDims, .bytes ((vs.map UInt64.toNat).flatMap encodeVarint)⟩
  | .dim v => ⟨tensorDims, .varint v.toNat⟩
  | .dataType n => ⟨tensorDataType, .varint n.toNat⟩
  | .floatData b => ⟨tensorFloatData, .bytes b⟩
  | .int64Data b => ⟨tensorInt64Data, .bytes b⟩
  | .name n => ⟨tensorName, .bytes n⟩
  | .rawData b => ⟨tensorRawData, .bytes b⟩
  | .other f => f.field

def sizes : TensorField → List Nat
  | .dims vs => vs.map UInt64.toNat
  | .dim v => [v.toNat]
  | _ => []

def name? : TensorField → Option Bytes
  | .name n => some n
  | _ => none

def rawData? : TensorField → Option Bytes
  | .rawData b => some b
  | _ => none

def floatData? : TensorField → Option Bytes
  | .floatData b => some b
  | _ => none

def int64Data? : TensorField → Option Bytes
  | .int64Data b => some b
  | _ => none

end TensorField

abbrev TensorProto := List TensorField

namespace TensorProto

def name (t : TensorProto) : Bytes := lastOf TensorField.name? [] t

def dims (t : TensorProto) : List Nat := t.flatMap TensorField.sizes

def field (get : TensorField → Option Bytes) (t : TensorProto) : Option Bytes :=
  lastOf (fun f => (get f).map some) none t

def data (t : TensorProto) : Option Bytes :=
  (t.field TensorField.rawData?).or
    ((t.field TensorField.floatData?).or (t.field TensorField.int64Data?))

def hasData (t : TensorProto) : Bool := !(t.data.getD []).isEmpty

end TensorProto

/-! ## Graphs and models -/

inductive GraphField where
  | name (n : Bytes)
  | node (n : NodeProto)
  | initializer (t : TensorProto)
  | input (v : ValueInfoProto)
  | output (v : ValueInfoProto)
  | other (f : OtherField [graphNode, graphName, graphInitializer, graphInput, graphOutput])

namespace GraphField

def raw : GraphField → RawField
  | .name n => ⟨graphName, .bytes n⟩
  | .node n => ⟨graphNode, .bytes (encodeMessage NodeField.raw n)⟩
  | .initializer t => ⟨graphInitializer, .bytes (encodeMessage TensorField.raw t)⟩
  | .input v => ⟨graphInput, .bytes (encodeMessage ValueInfoField.raw v)⟩
  | .output v => ⟨graphOutput, .bytes (encodeMessage ValueInfoField.raw v)⟩
  | .other f => f.field

def node? : GraphField → Option NodeProto
  | .node n => some n
  | _ => none

def initializer? : GraphField → Option TensorProto
  | .initializer t => some t
  | _ => none

def input? : GraphField → Option ValueInfoProto
  | .input v => some v
  | _ => none

def output? : GraphField → Option ValueInfoProto
  | .output v => some v
  | _ => none

end GraphField

inductive ModelField where
  | irVersion (v : UInt64)
  | graph (g : List GraphField)
  | other (f : OtherField [modelIrVersion, modelGraph])

namespace ModelField

def raw : ModelField → RawField
  | .irVersion v => ⟨modelIrVersion, .varint v.toNat⟩
  | .graph g => ⟨modelGraph, .bytes (encodeMessage GraphField.raw g)⟩
  | .other f => f.field

def graphFields : ModelField → List GraphField
  | .graph g => g
  | _ => []

end ModelField

abbrev ModelProto := List ModelField

namespace ModelProto

def encode (m : ModelProto) : Bytes := encodeMessage ModelField.raw m

def graph (m : ModelProto) : List GraphField := m.flatMap ModelField.graphFields

def nodes (m : ModelProto) : List NodeProto := m.graph.filterMap GraphField.node?

def initializers (m : ModelProto) : List TensorProto := m.graph.filterMap GraphField.initializer?

def inputs (m : ModelProto) : List ValueInfoProto := m.graph.filterMap GraphField.input?

def outputs (m : ModelProto) : List ValueInfoProto := m.graph.filterMap GraphField.output?

end ModelProto

/-! ## Fields that can be written -/

def FieldData.Scalar : FieldData → Prop
  | .bytes _ => True
  | d => d.Valid

structure RawField.Sound (f : RawField) : Prop where
  number_pos : 0 < f.number
  number_lt : f.number < 2 ^ 29
  scalar : f.data.Scalar

theorem OtherField.sound (f : OtherField known) : f.field.Sound where
  number_pos := f.valid.number_pos
  number_lt := f.valid.number_lt
  scalar := by
    have hdata := f.valid.data
    cases h : f.field.data with
    | bytes b => exact trivial
    | _ =>
      rw [h] at hdata
      exact hdata

theorem sound_varint (hpos : 0 < number) (hlt : number < 2 ^ 29) (v : UInt64) :
    RawField.Sound ⟨number, .varint v.toNat⟩ :=
  ⟨hpos, hlt, v.toNat_lt⟩

theorem sound_bytes (hpos : 0 < number) (hlt : number < 2 ^ 29) (b : Bytes) :
    RawField.Sound ⟨number, .bytes b⟩ :=
  ⟨hpos, hlt, trivial⟩

section

variable {κ σ : Type} {raw : κ → RawField}

theorem length_field_le (hmem : f ∈ fs) :
    (raw f).encode.length ≤ (encodeMessage raw fs).length := by
  rw [encodeMessage, List.length_flatMap]
  exact List.single_le_sum (by simp) _ (List.mem_map_of_mem hmem)

theorem length_nested_le (hmem : f ∈ fs) (hb : (raw f).data = .bytes b) :
    b.length ≤ (encodeMessage raw fs).length := by
  refine le_trans ?_ (length_field_le hmem)
  simp only [RawField.encode, hb, FieldData.encode, List.length_append]
  omega

theorem valid_of_sound (hsound : (raw f).Sound) (hmem : f ∈ fs)
    (hlen : (encodeMessage raw fs).length < 2 ^ 64) : (raw f).Valid where
  number_pos := hsound.number_pos
  number_lt := hsound.number_lt
  data := by
    have hscalar := hsound.scalar
    cases hdata : (raw f).data with
    | bytes b => exact (length_nested_le hmem hdata).trans_lt hlen
    | _ =>
      rw [hdata] at hscalar
      exact hscalar

theorem forEach_message {body : σ → ProtoField → Except ParseError σ}
    (View : List κ → σ → Prop) (hsound : ∀ f, (raw f).Sound)
    (hlen : (encodeMessage raw fs).length < 2 ^ 64) (hstart : View [] s)
    (hstep : ∀ front f s s', f ∈ fs → View front s → body s (raw f).proto = .ok s' →
      View (front ++ [f]) s')
    (h : forEach ProtoIter.next body s (encodeMessage raw fs) = .ok s') : View fs s' := by
  rw [encodeMessage, forEach_encode fun f hf => valid_of_sound (hsound f) hf hlen] at h
  exact foldlM_ok View hstart hstep h

end

theorem DimField.sound (f : DimField) : f.raw.Sound := by
  cases f with
  | value v => exact sound_varint (by decide) (by decide) v
  | other f => exact f.sound

theorem ShapeField.sound (f : ShapeField) : f.raw.Sound := by
  cases f with
  | dim d => exact sound_bytes (by decide) (by decide) _
  | other f => exact f.sound

theorem TensorTypeField.sound (f : TensorTypeField) : f.raw.Sound := by
  cases f with
  | elemType n => exact sound_varint (by decide) (by decide) n
  | shape s => exact sound_bytes (by decide) (by decide) _
  | other f => exact f.sound

theorem TypeField.sound (f : TypeField) : f.raw.Sound := by
  cases f with
  | tensorType t => exact sound_bytes (by decide) (by decide) _
  | other f => exact f.sound

theorem ValueInfoField.sound (f : ValueInfoField) : f.raw.Sound := by
  cases f with
  | other f => exact f.sound
  | _ => exact sound_bytes (by decide) (by decide) _

theorem NodeField.sound (f : NodeField) : f.raw.Sound := by
  cases f with
  | other f => exact f.sound
  | _ => exact sound_bytes (by decide) (by decide) _

theorem TensorField.sound (f : TensorField) : f.raw.Sound := by
  cases f with
  | other f => exact f.sound
  | dim v | dataType v => exact sound_varint (by decide) (by decide) v
  | _ => exact sound_bytes (by decide) (by decide) _

theorem GraphField.sound (f : GraphField) : f.raw.Sound := by
  cases f with
  | other f => exact f.sound
  | _ => exact sound_bytes (by decide) (by decide) _

theorem ModelField.sound (f : ModelField) : f.raw.Sound := by
  cases f with
  | irVersion v => exact sound_varint (by decide) (by decide) v
  | graph g => exact sound_bytes (by decide) (by decide) _
  | other f => exact f.sound

end SlmOs.Onnx
