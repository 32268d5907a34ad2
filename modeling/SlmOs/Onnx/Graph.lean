import SlmOs.Foundation.Wire

/-!
# Graphs of loaded models

The types of `runtime/src/loader/graph.rs`.  An array with a count of the entries in use is
the list of those entries, with the bound that the array gives.
-/

namespace SlmOs.Onnx

open Foundation

def ascii (text : String) : Bytes := text.toUTF8.toList

/-- An array of `cap` entries with a count of those in use. -/
structure Capped (α : Type) (cap : Nat) where
  items : List α
  bound : items.length ≤ cap
  deriving Repr

namespace Capped

variable {α : Type} {cap : Nat}

def empty : Capped α cap := ⟨[], Nat.zero_le cap⟩

def hasRoom (c : Capped α cap) : Bool := decide (c.items.length < cap)

def push (c : Capped α cap) (a : α) : Capped α cap :=
  if h : c.items.length < cap then
    ⟨c.items ++ [a], by simpa using h⟩
  else c

end Capped

/-- A name of fewer than `cap` bytes; longer ones are cut. -/
structure ShortName (cap : Nat) where
  bytes : Bytes
  bound : bytes.length ≤ cap - 1
  deriving DecidableEq, Repr

def ShortName.empty {cap : Nat} : ShortName cap := ⟨[], Nat.zero_le _⟩

def ShortName.fromBytes {cap : Nat} (src : Bytes) : ShortName cap :=
  ⟨src.take (if src.length < cap then src.length else cap - 1), by
    rw [List.length_take]
    split <;> omega⟩

def maxGraphNodes : Nat := 12

def maxNodeInputs : Nat := 4

def maxNodeOutputs : Nat := 2

def maxGraphIo : Nat := 4

def tensorNameLen : Nat := 40

def maxDims : Nat := 8

inductive OpType where
  | matMul
  | add
  | relu
  | softmax
  | layerNorm
  | reshape
  | transpose
  | gather
  | concat
  | unsqueeze
  | gemm
  | flatten
  | shape
  | constant
  | cast
  | conv
  | maxPool
  | unknown
  deriving DecidableEq, Repr

def OpType.names : List (String × OpType) :=
  [("MatMul", .matMul), ("Add", .add), ("Relu", .relu), ("Softmax", .softmax),
    ("LayerNorm", .layerNorm), ("Reshape", .reshape), ("Transpose", .transpose),
    ("Gather", .gather), ("Concat", .concat), ("Unsqueeze", .unsqueeze), ("Gemm", .gemm),
    ("Flatten", .flatten), ("Shape", .shape), ("Constant", .constant), ("Cast", .cast),
    ("Conv", .conv), ("MaxPool", .maxPool)]

def OpType.fromName (name : Bytes) : OpType :=
  match OpType.names.find? fun p => ascii p.1 == name with
  | some p => p.2
  | none => .unknown

abbrev TensorName := ShortName tensorNameLen

inductive ElemType where
  | float
  | uInt8
  | int8
  | int32
  | int64
  | float16
  | unknown
  deriving DecidableEq, Repr

def ElemType.fromOnnx : Nat → ElemType
  | 1 => .float
  | 2 => .uInt8
  | 3 => .int8
  | 6 => .int32
  | 7 => .int64
  | 10 => .float16
  | _ => .unknown

structure TensorShape where
  dims : Capped Nat maxDims
  elemType : ElemType
  deriving Repr

inductive AutoPad where
  | notSet
  | sameUpper
  | sameLower
  | valid
  deriving DecidableEq, Repr

structure NodeAttrs where
  hasKernelShape : Bool
  kernelShape : Nat × Nat
  hasStrides : Bool
  strides : Nat × Nat
  pads : List Nat
  dilations : Nat × Nat
  group : Nat
  autoPad : AutoPad
  unsupported : Bool
  deriving DecidableEq, Repr

def NodeAttrs.empty : NodeAttrs :=
  ⟨false, (0, 0), false, (1, 1), [0, 0, 0, 0], (1, 1), 1, .notSet, false⟩

structure GraphNode where
  opType : OpType
  name : TensorName
  attrs : NodeAttrs
  inputs : List TensorName
  outputs : List TensorName
  deriving Repr

structure OperatorGraph where
  nodes : List GraphNode
  inputs : List (TensorName × TensorShape)
  outputs : List (TensorName × TensorShape)
  deriving Repr

def maxWeightEntries : Nat := 16

structure WeightEntry where
  name : TensorName
  offset : Nat
  size : Nat
  shape : TensorShape
  deriving Repr

abbrev WeightTable := Capped WeightEntry maxWeightEntries

end SlmOs.Onnx
