import SlmOs.Onnx.Graph
import SlmOs.Onnx.Protobuf

/-!
# The ONNX parser

`runtime/src/loader/onnx_parser.rs`: the messages of an ONNX file, field by field, and the
graph that is built from them.
-/

namespace SlmOs.Onnx

open Foundation ProtoIter

/-! ## Field numbers -/

@[match_pattern] abbrev modelIrVersion : Nat := 1

@[match_pattern] abbrev modelGraph : Nat := 7

@[match_pattern] abbrev graphNode : Nat := 1

@[match_pattern] abbrev graphName : Nat := 2

@[match_pattern] abbrev graphInitializer : Nat := 5

@[match_pattern] abbrev graphInput : Nat := 11

@[match_pattern] abbrev graphOutput : Nat := 12

@[match_pattern] abbrev nodeInput : Nat := 1

@[match_pattern] abbrev nodeOutput : Nat := 2

@[match_pattern] abbrev nodeName : Nat := 3

@[match_pattern] abbrev nodeOpType : Nat := 4

@[match_pattern] abbrev nodeAttribute : Nat := 5

@[match_pattern] abbrev attrName : Nat := 1

@[match_pattern] abbrev attrI : Nat := 3

@[match_pattern] abbrev attrS : Nat := 4

@[match_pattern] abbrev attrInts : Nat := 8

@[match_pattern] abbrev tensorDims : Nat := 1

@[match_pattern] abbrev tensorDataType : Nat := 2

@[match_pattern] abbrev tensorFloatData : Nat := 4

@[match_pattern] abbrev tensorInt64Data : Nat := 7

@[match_pattern] abbrev tensorName : Nat := 8

@[match_pattern] abbrev tensorRawData : Nat := 13

@[match_pattern] abbrev valueInfoName : Nat := 1

@[match_pattern] abbrev valueInfoType : Nat := 2

@[match_pattern] abbrev typeTensorType : Nat := 1

@[match_pattern] abbrev tensorTypeElemType : Nat := 1

@[match_pattern] abbrev tensorTypeShape : Nat := 2

@[match_pattern] abbrev shapeDim : Nat := 1

@[match_pattern] abbrev dimValue : Nat := 1

def maxNodes : Nat := 16

def maxInitializers : Nat := 16

def maxIo : Nat := 4

def maxNodeInputsParse : Nat := 3

def maxNodeOutputsParse : Nat := 2

def nameLen : Nat := 40

def maxUsize : Nat := 2 ^ 64 - 1

def maxU16 : Nat := 65535

/-! ## Parsed messages -/

abbrev Name := ShortName nameLen

inductive OnnxDataType where
  | float
  | uInt8
  | int8
  | int32
  | int64
  | float16
  | unknown
  deriving DecidableEq, Repr

namespace OnnxDataType

def fromU32 : Nat → OnnxDataType
  | 1 => .float
  | 2 => .uInt8
  | 3 => .int8
  | 6 => .int32
  | 7 => .int64
  | 10 => .float16
  | _ => .unknown

def toU32 : OnnxDataType → Nat
  | .float => 1
  | .uInt8 => 2
  | .int8 => 3
  | .int32 => 6
  | .int64 => 7
  | .float16 => 10
  | .unknown => 0

def elementSize : OnnxDataType → Nat
  | .float => 4
  | .int32 => 4
  | .int64 => 8
  | .uInt8 => 1
  | .int8 => 1
  | .float16 => 2
  | .unknown => 0

end OnnxDataType

abbrev ParsedShape := Capped Int maxDims

structure TensorInfo where
  name : Name
  shape : ParsedShape
  dataType : OnnxDataType
  rawData : Option Bytes
  floatData : Option Bytes
  int64Data : Option Bytes
  deriving Repr

namespace TensorInfo

def empty : TensorInfo := ⟨.empty, .empty, .unknown, none, none, none⟩

def product (total : Nat) : List Int → Nat
  | [] => total
  | d :: dims => if d ≤ 0 then 0 else product (min (total * d.toNat) maxUsize) dims

def numElements (t : TensorInfo) : Nat :=
  if t.shape.items = [] then 0 else product 1 t.shape.items

def dataSize (t : TensorInfo) : Nat :=
  match t.rawData, t.floatData, t.int64Data with
  | some raw, _, _ => raw.length
  | none, some floats, _ => floats.length
  | none, none, some i64s => i64s.length
  | none, none, none => min (t.numElements * t.dataType.elementSize) maxUsize

end TensorInfo

structure ParsedNode where
  opType : Name
  name : Name
  inputs : Capped Name maxNodeInputsParse
  outputs : Capped Name maxNodeOutputsParse
  attrs : NodeAttrs
  deriving Repr

def ParsedNode.empty : ParsedNode := ⟨.empty, .empty, .empty, .empty, .empty⟩

structure ValueInfo where
  name : Name
  shape : ParsedShape
  elemType : OnnxDataType
  deriving Repr

def ValueInfo.empty : ValueInfo := ⟨.empty, .empty, .unknown⟩

structure ParsedOnnx where
  irVersion : Int
  graphName : Name
  nodes : Capped ParsedNode maxNodes
  initializers : Capped TensorInfo maxInitializers
  inputs : Capped ValueInfo maxIo
  outputs : Capped ValueInfo maxIo
  deriving Repr

def ParsedOnnx.new : ParsedOnnx := ⟨0, .empty, .empty, .empty, .empty, .empty⟩

def TensorInfo.expandedSize (t : TensorInfo) : Nat :=
  if t.dataType = .float16 then min (t.numElements * 4) maxUsize
  else if t.dataType = .int64 ∧ t.int64Data.isSome then min (t.numElements * 8) maxUsize
  else t.dataSize

def ParsedOnnx.totalWeightSizeExpanded (m : ParsedOnnx) : Nat :=
  m.initializers.items.foldl (fun total t => min (total + t.expandedSize) maxUsize) 0

/-! ## Parsing -/

/-- The integers of an attribute: the first four, how many there were, and whether one of
them does not fit. -/
structure Ints where
  values : List Nat
  count : Nat
  unsupported : Bool

def Ints.push (s : Ints) (v : Int) : Ints :=
  if s.count < 4 then
    if 0 ≤ v ∧ v ≤ maxU16 then ⟨s.values.set s.count v.toNat, s.count + 1, s.unsupported⟩
    else ⟨s.values, s.count + 1, true⟩
  else ⟨s.values, s.count + 1, s.unsupported⟩

def collectInts (s : Ints) (field : ProtoField) : Except ParseError Ints :=
  match field.data with
  | .varint v => .ok (s.push (asI64 v))
  | .bytes b => forEach PackedVarintIter.next (fun s v => .ok (s.push (asI64 v))) s b
  | _ => .ok s

structure AttrValue where
  ints : Ints
  intVal : Option Int
  strVal : Bytes

def attrField (a : AttrValue) (field : ProtoField) : Except ParseError AttrValue :=
  match field.fieldNumber with
  | attrInts => do
      let ints ← collectInts a.ints field
      return { a with ints }
  | attrI => .ok { a with intVal := some (fieldAsI64 field) }
  | attrS => .ok { a with strVal := (fieldAsStr field).getD [] }
  | _ => .ok a

/-- The two integers of a spatial attribute, or none when it has another number of them. -/
def Ints.pair (s : Ints) : Option (Nat × Nat) :=
  if s.count = 2 then some (s.values.getD 0 0, s.values.getD 1 0) else none

def NodeAttrs.set (attrs : NodeAttrs) (name : Bytes) (a : AttrValue) : NodeAttrs :=
  let attrs := { attrs with unsupported := attrs.unsupported || a.ints.unsupported }
  let reject : NodeAttrs → NodeAttrs := fun attrs => { attrs with unsupported := true }
  if name = ascii "kernel_shape" then
    let attrs := { attrs with hasKernelShape := true }
    match a.ints.pair with
    | some p => { attrs with kernelShape := p }
    | none => reject attrs
  else if name = ascii "strides" then
    let attrs := { attrs with hasStrides := true }
    match a.ints.pair with
    | some p => { attrs with strides := p }
    | none => reject attrs
  else if name = ascii "dilations" then
    match a.ints.pair with
    | some p => { attrs with dilations := p }
    | none => reject attrs
  else if name = ascii "pads" then
    if a.ints.count = 4 then { attrs with pads := a.ints.values } else reject attrs
  else if name = ascii "group" then
    match a.intVal with
    | some g => if 1 ≤ g ∧ g ≤ maxU16 then { attrs with group := g.toNat } else reject attrs
    | none => reject attrs
  else if name = ascii "auto_pad" then
    if a.strVal = ascii "NOTSET" ∨ a.strVal = [] then { attrs with autoPad := .notSet }
    else if a.strVal = ascii "SAME_UPPER" then { attrs with autoPad := .sameUpper }
    else if a.strVal = ascii "SAME_LOWER" then { attrs with autoPad := .sameLower }
    else if a.strVal = ascii "VALID" then { attrs with autoPad := .valid }
    else reject { attrs with autoPad := .notSet }
  else if name = ascii "ceil_mode" then
    if a.intVal.getD 0 ≠ 0 then reject attrs else attrs
  else attrs

def parseAttribute (data : Bytes) (attrs : NodeAttrs) : Except ParseError NodeAttrs := do
  let name ← forEach next (fun (name : Bytes) field =>
    if field.fieldNumber = attrName then .ok ((fieldAsStr field).getD name) else .ok name) []
    data
  let value ← forEach next attrField ⟨⟨[0, 0, 0, 0], 0, false⟩, none, []⟩ data
  return attrs.set name value

def nodeField (node : ParsedNode) (field : ProtoField) : Except ParseError ParsedNode :=
  match field.fieldNumber, field.data with
  | nodeInput, .bytes name => .ok { node with inputs := node.inputs.push (.fromBytes name) }
  | nodeOutput, .bytes name => .ok { node with outputs := node.outputs.push (.fromBytes name) }
  | nodeName, .bytes name => .ok { node with name := .fromBytes name }
  | nodeOpType, .bytes name => .ok { node with opType := .fromBytes name }
  | nodeAttribute, .bytes attr => do
      let attrs ← parseAttribute attr node.attrs
      return { node with attrs }
  | _, _ => .ok node

def parseNode (data : Bytes) : Except ParseError ParsedNode :=
  forEach next nodeField .empty data

def tensorField (t : TensorInfo) (field : ProtoField) : Except ParseError TensorInfo :=
  match field.fieldNumber, field.data with
  | tensorDims, .bytes packed => do
      let shape ← forEach PackedVarintIter.next
        (fun (shape : ParsedShape) v => .ok (shape.push (asI64 v))) t.shape packed
      return { t with shape }
  | tensorDims, .varint v =>
    -- a dimension is looked at only while there is room for it
    if t.shape.hasRoom then
      if v < 2 ^ 63 then .ok { t with shape := t.shape.push v } else .error .lengthOverflow
    else .ok t
  | tensorDataType, _ => .ok { t with dataType := .fromU32 (fieldAsU64 field % 2 ^ 32) }
  | tensorFloatData, .bytes packed => .ok { t with floatData := some packed }
  | tensorInt64Data, .bytes packed => .ok { t with int64Data := some packed }
  | tensorName, .bytes name => .ok { t with name := .fromBytes name }
  | tensorRawData, .bytes raw => .ok { t with rawData := some raw }
  | _, _ => .ok t

def parseTensorProto (data : Bytes) : Except ParseError TensorInfo :=
  forEach next tensorField .empty data

def parseShapeDim (data : Bytes) (shape : ParsedShape) : Except ParseError ParsedShape :=
  forEach next (fun (shape : ParsedShape) field =>
    if field.fieldNumber = dimValue then .ok (shape.push (fieldAsI64 field)) else .ok shape)
    shape data

def parseTensorShape (data : Bytes) (shape : ParsedShape) : Except ParseError ParsedShape :=
  forEach next (fun (shape : ParsedShape) field =>
    match field.fieldNumber, field.data with
    | shapeDim, .bytes dim => parseShapeDim dim shape
    | _, _ => .ok shape) shape data

def parseTensorType (data : Bytes) (vi : ValueInfo) : Except ParseError ValueInfo :=
  forEach next (fun (vi : ValueInfo) field =>
    match field.fieldNumber, field.data with
    | tensorTypeElemType, _ => .ok { vi with elemType := .fromU32 (fieldAsU64 field % 2 ^ 32) }
    | tensorTypeShape, .bytes shapeData => do
        let shape ← parseTensorShape shapeData vi.shape
        return { vi with shape }
    | _, _ => .ok vi) vi data

def parseTypeProto (data : Bytes) (vi : ValueInfo) : Except ParseError ValueInfo :=
  forEach next (fun (vi : ValueInfo) field =>
    match field.fieldNumber, field.data with
    | typeTensorType, .bytes tensorType => parseTensorType tensorType vi
    | _, _ => .ok vi) vi data

def parseValueInfo (data : Bytes) : Except ParseError ValueInfo :=
  forEach next (fun (vi : ValueInfo) field =>
    match field.fieldNumber, field.data with
    | valueInfoName, .bytes name => .ok { vi with name := .fromBytes name }
    | valueInfoType, .bytes type => parseTypeProto type vi
    | _, _ => .ok vi) .empty data

/-- Parse and store an entry while there is room; otherwise it is not even parsed. -/
def Capped.parse {α : Type} {cap : Nat} (c : Capped α cap)
    (parse : Bytes → Except ParseError α) (data : Bytes) : Except ParseError (Capped α cap) :=
  if c.hasRoom then do
    let a ← parse data
    return c.push a
  else .ok c

def graphField (model : ParsedOnnx) (field : ProtoField) : Except ParseError ParsedOnnx :=
  match field.fieldNumber, field.data with
  | graphName, .bytes name => .ok { model with graphName := .fromBytes name }
  | graphNode, .bytes data => do
      let nodes ← model.nodes.parse parseNode data
      return { model with nodes }
  | graphInitializer, .bytes data => do
      let initializers ← model.initializers.parse parseTensorProto data
      return { model with initializers }
  | graphInput, .bytes data => do
      let inputs ← model.inputs.parse parseValueInfo data
      return { model with inputs }
  | graphOutput, .bytes data => do
      let outputs ← model.outputs.parse parseValueInfo data
      return { model with outputs }
  | _, _ => .ok model

def parseGraph (data : Bytes) (model : ParsedOnnx) : Except ParseError ParsedOnnx :=
  forEach next graphField model data

def modelField (model : ParsedOnnx) (field : ProtoField) : Except ParseError ParsedOnnx :=
  match field.fieldNumber, field.data with
  | modelIrVersion, _ => .ok { model with irVersion := fieldAsI64 field }
  | modelGraph, .bytes data => parseGraph data model
  | _, _ => .ok model

def parseOnnx (data : Bytes) : Except ParseError ParsedOnnx :=
  forEach next modelField .new data

/-! ## Graphs -/

/-- The dimensions as they are stored: those that are not positive become 1. -/
def parsedShapeToTensorShape (ps : ParsedShape) (dt : OnnxDataType) : TensorShape where
  dims := ⟨ps.items.map fun d => if 0 < d then d.toNat % 2 ^ 32 else 1, by
    simpa using ps.bound⟩
  elemType := .fromOnnx dt.toU32

def ParsedNode.toGraphNode (n : ParsedNode) : GraphNode where
  opType := .fromName n.opType.bytes
  name := .fromBytes n.name.bytes
  attrs := n.attrs
  inputs := (n.inputs.items.take (min maxNodeInputsParse maxNodeInputs)).map fun name =>
    .fromBytes name.bytes
  outputs := (n.outputs.items.take (min maxNodeOutputsParse maxNodeOutputs)).map fun name =>
    .fromBytes name.bytes

def ParsedOnnx.isInitializer (m : ParsedOnnx) (vi : ValueInfo) : Bool :=
  m.initializers.items.any fun t => t.name.bytes == vi.name.bytes

def ValueInfo.toGraph (vi : ValueInfo) : TensorName × TensorShape :=
  (.fromBytes vi.name.bytes, parsedShapeToTensorShape vi.shape vi.elemType)

def buildGraph (m : ParsedOnnx) : OperatorGraph where
  nodes := (m.nodes.items.take maxGraphNodes).map ParsedNode.toGraphNode
  inputs := ((m.inputs.items.filter fun vi => !m.isInitializer vi).take maxGraphIo).map
    ValueInfo.toGraph
  outputs := (m.outputs.items.take maxGraphIo).map ValueInfo.toGraph

end SlmOs.Onnx
