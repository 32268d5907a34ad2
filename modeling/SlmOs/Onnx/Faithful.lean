import SlmOs.Onnx.Load
import SlmOs.Onnx.Messages
import SlmOs.Onnx.Weights

/-!
# What is stored of an ONNX file

What the parser and `load_model` keep of a file: every array has the first entries of its
list, and every name the first 39 bytes.  A file within the capacities is stored whole, but
for its long names.
-/

namespace SlmOs.Onnx

open Foundation ModelMem Loader List NodeField NodeProto RawField TensorField TensorInfo
open GraphField OpType ShortName TensorProto TensorTypeField ValueInfoField ValueInfoProto

/-! ## Arrays with a capacity -/

section

variable {α β : Type}

theorem take_take_append (l r : List α) : (l.take cap ++ r).take cap = (l ++ r).take cap := by
  rcases Nat.le_total l.length cap with h | h
  · rw [take_of_length_le h]
  rw [take_append_of_le_length h, take_append_of_le_length (by simpa using h),
    take_take, Nat.min_self]

theorem items_push (c : Capped α cap) (a : α) : (c.push a).items = (c.items ++ [a]).take cap := by
  unfold Capped.push
  split
  · rename_i h
    exact (take_of_length_le (by simpa using h)).symm
  rename_i h
  have hfull : c.items.length = cap := Nat.le_antisymm c.bound (Nat.le_of_not_lt h)
  simp [← hfull]

theorem map_items_push {cap : Nat} {view : α → β} {c : Capped α cap} {a : α} {l : List β}
    (h : c.items.map view = l.take cap) : (c.push a).items.map view = (l ++ [view a]).take cap := by
  rw [items_push, map_take, map_append, h, map_singleton, take_take_append]

theorem map_items_parse {cap : Nat} {view : α → β} {c c' : Capped α cap}
    {parse : Bytes → Except ParseError α} {data : Bytes} {b : β} {l : List β}
    (h : c.items.map view = l.take cap) (hview : ∀ a, parse data = .ok a → view a = b)
    (hparse : c.parse parse data = .ok c') : c'.items.map view = (l ++ [b]).take cap := by
  unfold Capped.parse at hparse
  split at hparse
  · obtain ⟨a, ha, hpush⟩ := bind_eq_ok.mp hparse
    cases hpush
    rw [map_items_push h, hview a ha]
  rename_i hroom
  cases hparse
  have hfull : c.items.length = cap := by
    have hle := c.bound
    simp only [Capped.hasRoom, decide_eq_true_eq] at hroom
    omega
  have hlen : cap ≤ l.length := by
    have hlen := congrArg List.length h
    rw [length_map, length_take, hfull] at hlen
    omega
  rw [h, take_append_of_le_length hlen]

end

/-! ## Shapes -/

theorem parsePacked {shape shape' : ParsedShape} {vs : List UInt64} {l : List Int}
    (hstart : shape.items = l.take maxDims)
    (h : forEach PackedVarintIter.next
      (fun (shape : ParsedShape) v => .ok (shape.push (asI64 v))) shape
      ((vs.map UInt64.toNat).flatMap encodeVarint) = .ok shape') :
    shape'.items = (l ++ (vs.map UInt64.toNat).map asI64).take maxDims := by
  have hvs : ∀ v ∈ vs.map UInt64.toNat, v < 2 ^ 64 := by
    intro v hv
    obtain ⟨u, -, rfl⟩ := mem_map.mp hv
    exact u.toNat_lt
  rw [forEach_packed hvs] at h
  let View (front : List Nat) (s : ParsedShape) : Prop :=
    s.items = (l ++ front.map asI64).take maxDims
  refine foldlM_ok View (show View [] shape by simpa [View] using hstart) ?_ h
  intro front v s s' _ hview hbody
  cases hbody
  simp only [View] at hview ⊢
  rw [items_push, hview, take_take_append, map_append, append_assoc]
  rfl

theorem parseShapeDim_view {shape shape' : ParsedShape} {l : List Int}
    (hlen : (encodeMessage DimField.raw d).length < 2 ^ 64) (hstart : shape.items = l.take maxDims)
    (h : parseShapeDim (encodeMessage DimField.raw d) shape = .ok shape') :
    shape'.items = (l ++ (d.filterMap DimField.size).map asI64).take maxDims := by
  let View (front : List DimField) (s : ParsedShape) : Prop :=
    s.items = (l ++ (front.filterMap DimField.size).map asI64).take maxDims
  refine forEach_message View DimField.sound hlen (show View [] shape by simpa [View] using hstart)
    ?_ h
  intro front f s s' _ hview hbody
  simp only [View] at hview ⊢
  cases f with
  | value v =>
    cases hbody
    simp [items_push, hview, take_take_append, DimField.size, fieldAsI64, proto, DimField.raw]
  | other f =>
    have hother : (DimField.other f).raw.proto.fieldNumber ≠ dimValue := by
      simpa [proto, DimField.raw] using f.unknown
    rw [if_neg hother] at hbody
    cases hbody
    simpa [DimField.size, filterMap_cons] using hview

theorem parseTensorShape_view {shape shape' : ParsedShape} {l : List Int}
    (hlen : (encodeMessage ShapeField.raw d).length < 2 ^ 64)
    (hstart : shape.items = l.take maxDims)
    (h : parseTensorShape (encodeMessage ShapeField.raw d) shape = .ok shape') :
    shape'.items = (l ++ (d.flatMap ShapeField.sizes).map asI64).take maxDims := by
  let View (front : List ShapeField) (s : ParsedShape) : Prop :=
    s.items = (l ++ (front.flatMap ShapeField.sizes).map asI64).take maxDims
  refine forEach_message View ShapeField.sound hlen
    (show View [] shape by simpa [View] using hstart)
    ?_ h
  intro front f s s' hf hview hbody
  simp only [View] at hview ⊢
  cases f with
  | dim d =>
    have hdim := (length_nested_le hf rfl).trans_lt hlen
    rw [parseShapeDim_view hdim hview hbody]
    simp [ShapeField.sizes]
  | other f =>
    have hother : (ShapeField.other f).raw.proto.fieldNumber ≠ shapeDim := by
      simpa [proto, ShapeField.raw] using f.unknown
    split at hbody
    · contradiction
    cases hbody
    simpa [ShapeField.sizes] using hview

theorem parseTensorType_view (hlen : (encodeMessage TensorTypeField.raw d).length < 2 ^ 64)
    (hstart : vi.shape.items = l.take maxDims)
    (h : parseTensorType (encodeMessage TensorTypeField.raw d) vi = .ok vi') :
    vi'.name = vi.name ∧
      vi'.shape.items = (l ++ (d.flatMap TensorTypeField.sizes).map asI64).take maxDims := by
  let View (front : List TensorTypeField) (v : ValueInfo) : Prop := v.name = vi.name ∧
      v.shape.items = (l ++ (front.flatMap TensorTypeField.sizes).map asI64).take maxDims
  refine forEach_message View TensorTypeField.sound hlen
    (show View [] vi by simpa [View] using hstart)
    ?_ h
  intro front f v v' hf hview hbody
  simp only [View] at hview ⊢
  cases f with
  | elemType n =>
    cases hbody
    simpa [TensorTypeField.sizes] using hview
  | shape s =>
    obtain ⟨shape₁, hshape, hok⟩ := bind_eq_ok.mp hbody
    cases hok
    have hnested := (length_nested_le hf rfl).trans_lt hlen
    refine ⟨hview.1, ?_⟩
    rw [parseTensorShape_view hnested hview.2 hshape]
    simp [TensorTypeField.sizes]
  | other f =>
    have hother : (TensorTypeField.other f).raw.proto.fieldNumber ≠ tensorTypeElemType ∧
        (TensorTypeField.other f).raw.proto.fieldNumber ≠ tensorTypeShape := by
      simpa [RawField.proto, TensorTypeField.raw] using f.unknown
    split at hbody
    · exact absurd ‹_› hother.1
    · exact absurd ‹_› hother.2
    cases hbody
    simpa [TensorTypeField.sizes] using hview

theorem parseTypeProto_view (hlen : (encodeMessage TypeField.raw d).length < 2 ^ 64)
    (hstart : vi.shape.items = l.take maxDims)
    (h : parseTypeProto (encodeMessage TypeField.raw d) vi = .ok vi') :
    vi'.name = vi.name ∧
      vi'.shape.items = (l ++ (d.flatMap TypeField.sizes).map asI64).take maxDims := by
  let View (front : List TypeField) (v : ValueInfo) : Prop :=
    v.name = vi.name ∧ v.shape.items = (l ++ (front.flatMap TypeField.sizes).map asI64).take maxDims
  refine forEach_message View TypeField.sound hlen (show View [] vi by simpa [View] using hstart)
    ?_ h
  intro front f v v' hf hview hbody
  simp only [View] at hview ⊢
  cases f with
  | tensorType t =>
    have hnested := (length_nested_le hf rfl).trans_lt hlen
    obtain ⟨hname, hshape⟩ := parseTensorType_view hnested hview.2 hbody
    refine ⟨hname.trans hview.1, ?_⟩
    rw [hshape]
    simp [TypeField.sizes]
  | other f =>
    have hother : (TypeField.other f).raw.proto.fieldNumber ≠ typeTensorType := by
      simpa [proto, TypeField.raw] using f.unknown
    split at hbody
    · contradiction
    cases hbody
    simpa [TypeField.sizes] using hview

/-! ## Inputs, nodes and tensors -/

def ValueInfo.view (v : ValueInfo) : Name × List Int := (v.name, v.shape.items)

def ValueInfoProto.view (v : ValueInfoProto) : Name × List Int :=
  (.fromBytes v.name, (v.dims.map asI64).take maxDims)

theorem parseValueInfo_view {d : ValueInfoProto} {vi : ValueInfo}
    (hlen : (encodeMessage ValueInfoField.raw d).length < 2 ^ 64)
    (h : parseValueInfo (encodeMessage ValueInfoField.raw d) = .ok vi) : vi.view = d.view := by
  let View (front : ValueInfoProto) (v : ValueInfo) : Prop := v.view = front.view
  refine forEach_message View ValueInfoField.sound hlen (show View [] .empty from rfl) ?_ h
  intro front f v v' hf hview hbody
  simp only [View, ValueInfo.view, ValueInfoProto.view, ValueInfoProto.name, ValueInfoProto.dims,
    Prod.mk.injEq, lastOf_append] at hview ⊢
  obtain ⟨hname, hdims⟩ := hview
  cases f with
  | name n =>
    cases hbody
    refine ⟨rfl, ?_⟩
    simpa [ValueInfoField.sizes] using hdims
  | type t =>
    have hnested := (length_nested_le hf rfl).trans_lt hlen
    obtain ⟨hname', hshape⟩ := parseTypeProto_view hnested hdims hbody
    refine ⟨hname'.trans hname, ?_⟩
    rw [hshape]
    simp [ValueInfoField.sizes]
  | other f =>
    have hother : (ValueInfoField.other f).raw.proto.fieldNumber ≠ valueInfoName ∧
        (ValueInfoField.other f).raw.proto.fieldNumber ≠ valueInfoType := by
      simpa [RawField.proto, ValueInfoField.raw] using f.unknown
    split at hbody
    · exact absurd ‹_› hother.1
    · exact absurd ‹_› hother.2
    cases hbody
    refine ⟨hname, ?_⟩
    simpa [ValueInfoField.sizes] using hdims

theorem items_full {α : Type} {cap : Nat} {c : Capped α cap} {l : List α} (r : List α)
    (hroom : c.hasRoom = false) (h : c.items = l.take cap) : c.items = (l ++ r).take cap := by
  have hlen := congrArg List.length h
  simp only [Capped.hasRoom, decide_eq_false_iff_not] at hroom
  rw [length_take] at hlen
  rw [h, take_append_of_le_length (by omega)]

def ParsedNode.view (n : ParsedNode) : Name × Name × List Name × List Name :=
  (n.opType, n.name, n.inputs.items, n.outputs.items)

def NodeProto.view (n : NodeProto) : Name × Name × List Name × List Name :=
  (.fromBytes n.opType, .fromBytes n.name, (n.inputs.map .fromBytes).take maxNodeInputsParse,
    (n.outputs.map .fromBytes).take maxNodeOutputsParse)

theorem nodeField_other {node : ParsedNode} {f : RawField}
    (h : f.number ∉ [nodeInput, nodeOutput, nodeName, nodeOpType, nodeAttribute]) :
    nodeField node f.proto = .ok node := by
  unfold nodeField
  split <;> simp_all [proto]

theorem parseNode_view {d : NodeProto} {node : ParsedNode}
    (hlen : (encodeMessage NodeField.raw d).length < 2 ^ 64)
    (h : parseNode (encodeMessage NodeField.raw d) = .ok node) : node.view = d.view := by
  let View (front : NodeProto) (n : ParsedNode) : Prop := n.view = front.view
  refine forEach_message View NodeField.sound hlen (show View [] .empty from rfl) ?_ h
  intro front f n n' hf hview hbody
  simp only [View, ParsedNode.view, NodeProto.view, NodeProto.opType, NodeProto.name,
    NodeProto.inputs, NodeProto.outputs, Prod.mk.injEq] at hview ⊢
  obtain ⟨hop, hname, hin, hout⟩ := hview
  cases f with
  | input x | output x | name x | opType x =>
    cases hbody
    simp [items_push, hop, hname, hin, hout, take_take_append, NodeField.input?,
      NodeField.output?, NodeField.name?, NodeField.opType?, List.filterMap_cons]
  | attr a =>
    obtain ⟨attrs, -, hok⟩ := bind_eq_ok.mp hbody
    cases hok
    simp [hop, hname, hin, hout, NodeField.input?, NodeField.output?, NodeField.name?,
      NodeField.opType?, List.filterMap_cons]
  | other x =>
    rw [NodeField.raw, nodeField_other x.unknown] at hbody
    cases hbody
    simp [hop, hname, hin, hout, NodeField.input?, NodeField.output?, NodeField.name?,
      NodeField.opType?, List.filterMap_cons]

def TensorInfo.view (t : TensorInfo) :
    Name × List Int × Option Bytes × Option Bytes × Option Bytes :=
  (t.name, t.shape.items, t.rawData, t.floatData, t.int64Data)

def TensorProto.view (t : TensorProto) :
    Name × List Int × Option Bytes × Option Bytes × Option Bytes :=
  (.fromBytes t.name, (t.dims.map asI64).take maxDims, t.field TensorField.rawData?,
    t.field TensorField.floatData?, t.field TensorField.int64Data?)

theorem tensorField_other {t : TensorInfo} {f : RawField}
    (h : f.number ∉ [tensorDims, tensorDataType, tensorFloatData, tensorInt64Data, tensorName,
      tensorRawData]) : tensorField t f.proto = .ok t := by
  unfold tensorField
  split <;> simp_all [proto]

theorem asI64_small (h : v < 2 ^ 63) : asI64 v = v := if_pos h

theorem parseTensorProto_view {d : TensorProto} {t : TensorInfo}
    (hlen : (encodeMessage TensorField.raw d).length < 2 ^ 64)
    (h : parseTensorProto (encodeMessage TensorField.raw d) = .ok t) : t.view = d.view := by
  let View (front : TensorProto) (n : TensorInfo) : Prop := n.view = front.view
  refine forEach_message View TensorField.sound hlen (show View [] .empty from rfl) ?_ h
  intro front f n n' hf hview hbody
  simp only [View, TensorInfo.view, TensorProto.view, TensorProto.name, TensorProto.dims,
    TensorProto.field, Prod.mk.injEq, lastOf_append] at hview ⊢
  obtain ⟨hname, hdims, hraw, hfloat, hint⟩ := hview
  cases f with
  | dims vs =>
    obtain ⟨shape, hshape, hok⟩ := bind_eq_ok.mp hbody
    cases hok
    refine ⟨hname, ?_, hraw, hfloat, hint⟩
    rw [parsePacked hdims hshape]
    simp [TensorField.sizes]
  | dim v =>
    simp only [tensorField, RawField.proto, TensorField.raw] at hbody
    split at hbody
    · split at hbody
      · rename_i hsmall
        cases hbody
        refine ⟨hname, ?_, hraw, hfloat, hint⟩
        simp [items_push, hdims, take_take_append, TensorField.sizes, asI64_small hsmall]
      · cases hbody
    rename_i hroom
    cases hbody
    refine ⟨hname, ?_, hraw, hfloat, hint⟩
    rw [List.flatMap_append, List.map_append]
    exact items_full _ (by simpa using hroom) hdims
  | dataType x =>
    cases hbody
    refine ⟨hname, ?_, hraw, hfloat, hint⟩
    simpa [TensorField.sizes] using hdims
  | floatData b =>
    cases hbody
    refine ⟨hname, ?_, hraw, rfl, hint⟩
    simpa [TensorField.sizes] using hdims
  | int64Data b =>
    cases hbody
    refine ⟨hname, ?_, hraw, hfloat, rfl⟩
    simpa [TensorField.sizes] using hdims
  | name x =>
    cases hbody
    refine ⟨rfl, ?_, hraw, hfloat, hint⟩
    simpa [TensorField.sizes] using hdims
  | rawData b =>
    cases hbody
    refine ⟨hname, ?_, rfl, hfloat, hint⟩
    simpa [TensorField.sizes] using hdims
  | other x =>
    rw [TensorField.raw, tensorField_other x.unknown] at hbody
    cases hbody
    refine ⟨hname, ?_, hraw, hfloat, hint⟩
    simpa [TensorField.sizes] using hdims

/-! ## Graphs -/

structure Shows (g : List GraphField) (m : ParsedOnnx) : Prop where
  nodes : m.nodes.items.map ParsedNode.view = ((g.filterMap node?).map NodeProto.view).take maxNodes
  initializers : m.initializers.items.map TensorInfo.view =
    ((g.filterMap initializer?).map TensorProto.view).take maxInitializers
  inputs : m.inputs.items.map ValueInfo.view =
    ((g.filterMap GraphField.input?).map ValueInfoProto.view).take maxIo
  outputs : m.outputs.items.map ValueInfo.view =
    ((g.filterMap GraphField.output?).map ValueInfoProto.view).take maxIo

theorem graphField_other {m : ParsedOnnx} {f : RawField}
    (h : f.number ∉ [graphNode, graphName, graphInitializer, graphInput, graphOutput]) :
    graphField m f.proto = .ok m := by
  unfold graphField
  split <;> simp_all [proto]

section

variable {κ β γ : Type} {get : κ → Option β} {view : β → γ}

theorem firsts_skip (hget : get f = none) (h : l = ((front.filterMap get).map view).take cap) :
    l = (((front ++ [f]).filterMap get).map view).take cap := by
  rw [h, filterMap_append, filterMap_cons_none hget, filterMap_nil, append_nil]

theorem firsts_add (hget : get f = some b)
    (h : l = ((front.filterMap get).map view ++ [view b]).take cap) :
    l = (((front ++ [f]).filterMap get).map view).take cap := by
  rw [h, filterMap_append, filterMap_cons_some hget, filterMap_nil, map_append, map_singleton]

end

theorem Shows.step {front : List GraphField} {f : GraphField} {m m' : ParsedOnnx}
    (hlen : f.raw.encode.length < 2 ^ 64) (h : Shows front m)
    (hbody : graphField m f.raw.proto = .ok m') : Shows (front ++ [f]) m' := by
  have hnested : ∀ b, f.raw.data = .bytes b → b.length < 2 ^ 64 := by
    intro b hb
    refine lt_of_le_of_lt ?_ hlen
    simp only [RawField.encode, hb, FieldData.encode, List.length_append]
    omega
  cases f with
  | name n =>
    cases hbody
    exact ⟨firsts_skip rfl h.nodes, firsts_skip rfl h.initializers, firsts_skip rfl h.inputs,
      firsts_skip rfl h.outputs⟩
  | node n =>
    obtain ⟨nodes, hnodes, hok⟩ := bind_eq_ok.mp hbody
    cases hok
    have hview := map_items_parse h.nodes (fun a ha => parseNode_view (hnested _ rfl) ha) hnodes
    exact ⟨firsts_add rfl hview, firsts_skip rfl h.initializers, firsts_skip rfl h.inputs,
      firsts_skip rfl h.outputs⟩
  | initializer t =>
    obtain ⟨initializers, hinit, hok⟩ := bind_eq_ok.mp hbody
    cases hok
    have hview := map_items_parse h.initializers
      (fun a ha => parseTensorProto_view (hnested _ rfl) ha) hinit
    exact ⟨firsts_skip rfl h.nodes, firsts_add rfl hview, firsts_skip rfl h.inputs,
      firsts_skip rfl h.outputs⟩
  | input v =>
    obtain ⟨inputs, hinputs, hok⟩ := bind_eq_ok.mp hbody
    cases hok
    have hview := map_items_parse h.inputs
      (fun a ha => parseValueInfo_view (hnested _ rfl) ha) hinputs
    exact ⟨firsts_skip rfl h.nodes, firsts_skip rfl h.initializers, firsts_add rfl hview,
      firsts_skip rfl h.outputs⟩
  | output v =>
    obtain ⟨outputs, houtputs, hok⟩ := bind_eq_ok.mp hbody
    cases hok
    have hview := map_items_parse h.outputs
      (fun a ha => parseValueInfo_view (hnested _ rfl) ha) houtputs
    exact ⟨firsts_skip rfl h.nodes, firsts_skip rfl h.initializers, firsts_skip rfl h.inputs,
      firsts_add rfl hview⟩
  | other x =>
    rw [GraphField.raw, graphField_other x.unknown] at hbody
    cases hbody
    exact ⟨firsts_skip rfl h.nodes, firsts_skip rfl h.initializers, firsts_skip rfl h.inputs,
      firsts_skip rfl h.outputs⟩

theorem parseGraph_shows
    (hlen : (encodeMessage GraphField.raw g').length < 2 ^ 64) (hstart : Shows g m)
    (h : parseGraph (encodeMessage GraphField.raw g') m = .ok m') : Shows (g ++ g') m' := by
  let View (front : List GraphField) (m : ParsedOnnx) : Prop := Shows (g ++ front) m
  refine forEach_message View sound hlen (show View [] m by simpa [View] using hstart) ?_ h
  intro front f m₁ m₂ hf hview hbody
  have hshort := (length_field_le hf).trans_lt hlen
  simp only [View] at hview ⊢
  rw [← append_assoc]
  exact hview.step hshort hbody

theorem parseOnnx_shows {m : ModelProto} {parsed : ParsedOnnx} (hlen : m.encode.length < 2 ^ 64)
    (h : parseOnnx m.encode = .ok parsed) : Shows m.graph parsed := by
  let View (front : ModelProto) (p : ParsedOnnx) : Prop := Shows front.graph p
  refine forEach_message View ModelField.sound hlen
    (show View [] .new from ⟨rfl, rfl, rfl, rfl⟩) ?_ h
  intro front f p p' hf hview hbody
  simp only [View, ModelProto.graph, flatMap_append, flatMap_singleton] at hview ⊢
  cases f with
  | irVersion v =>
    cases hbody
    simpa [ModelField.graphFields] using ⟨hview.nodes, hview.initializers, hview.inputs,
      hview.outputs⟩
  | graph g =>
    have hnested := (length_nested_le hf rfl).trans_lt hlen
    exact parseGraph_shows hnested hview hbody
  | other x =>
    have hother : x.field.proto.fieldNumber ≠ modelIrVersion ∧
        x.field.proto.fieldNumber ≠ modelGraph := by
      simpa [proto] using x.unknown
    unfold modelField at hbody
    split at hbody
    · exact absurd ‹_› hother.1
    · exact absurd ‹_› hother.2
    cases hbody
    simpa [ModelField.graphFields] using hview

/-! ## Weights -/

def cut (name : Bytes) : Bytes := name.take (tensorNameLen - 1)

theorem cut_of_short {name : Bytes} (h : name.length < tensorNameLen) : cut name = name :=
  take_of_length_le (by omega)

theorem bytes_fromBytes (src : Bytes) :
    (fromBytes src : ShortName cap).bytes = src.take (cap - 1) := by
  change src.take (if src.length < cap then src.length else cap - 1) = _
  split
  · rename_i h
    rw [take_length, take_of_length_le (by omega)]
  · rfl

theorem bytes_name (src : Bytes) : (fromBytes src : Name).bytes = cut src := bytes_fromBytes src

theorem bytes_tensorName (src : Bytes) : (fromBytes src : TensorName).bytes = cut src :=
  bytes_fromBytes src

@[simp] theorem cut_cut (name : Bytes) : cut (cut name) = cut name := by
  rw [cut, cut, take_take, Nat.min_self]

def storedDim (d : Int) : Nat := if 0 < d then d.toNat % 2 ^ 32 else 1

theorem storedDim_asI64 (hpos : 0 < d) (hlt : d < 2 ^ 32) : storedDim (asI64 d) = d := by
  rw [asI64_small (by omega), storedDim, if_pos (by omega), Int.toNat_natCast, Nat.mod_eq_of_lt hlt]

def WeightEntry.view (e : WeightEntry) : Bytes × List Nat := (e.name.bytes, e.shape.dims.items)

def TensorInfo.entry (t : TensorInfo) : Bytes × List Nat :=
  (cut t.name.bytes, t.shape.items.map storedDim)

variable {t : TensorInfo}

theorem loadModel_ok {fuel now idx : Nat} {mm : Allocator} {reg reg' : ModelRegistry}
    {name data : Bytes} (h : loadModel fuel mm now reg name data = some (.ok idx, reg')) :
    ∃ p, prepareOnnxPayload fuel mm name data = some (.ok p) ∧
      (reg' idx).graph = p.graph ∧ (reg' idx).weightTable = p.weightTable := by
  unfold loadModel at h
  split at h
  · cases h
  · cases h
  rename_i p hp
  split at h
  · cases h
    exact ⟨p, hp, by simp [Prepared.install], by simp [Prepared.install]⟩
  · cases h

/-! ## Files within the capacities -/

def DimsFit (dims : List Nat) : Prop :=
  dims.length ≤ maxDims ∧ ∀ d ∈ dims, 0 < d ∧ d < 2 ^ 32

instance (dims : List Nat) : Decidable (DimsFit dims) := inferInstanceAs (Decidable (_ ∧ _))

structure ModelProto.Fits (m : ModelProto) : Prop where
  nodes : m.nodes.length ≤ maxGraphNodes
  nodeInputs : ∀ n ∈ m.nodes, n.inputs.length ≤ maxNodeInputsParse
  nodeOutputs : ∀ n ∈ m.nodes, n.outputs.length ≤ maxNodeOutputsParse
  initializers : m.initializers.length ≤ maxInitializers
  tensorDims : ∀ t ∈ m.initializers, DimsFit t.dims
  inputs : m.inputs.length ≤ maxIo
  inputDims : ∀ v ∈ m.inputs, DimsFit v.dims
  outputs : m.outputs.length ≤ maxIo
  outputDims : ∀ v ∈ m.outputs, DimsFit v.dims

theorem map_storedDim {dims : List Nat} (h : DimsFit dims) :
    ((dims.map asI64).take maxDims).map storedDim = dims := by
  rw [take_of_length_le (by simpa using h.1), map_map]
  calc dims.map (storedDim ∘ asI64) = dims.map id := by
        apply map_congr_left
        intro d hd
        exact storedDim_asI64 (h.2 d hd).1 (h.2 d hd).2
    _ = dims := map_id dims

theorem fromName_cut (name : Bytes) : fromName (cut name) = fromName name := by
  have hshort : ∀ p ∈ names, (ascii p.1).length < tensorNameLen - 1 := by
    decide +kernel
  by_cases h : name.length < tensorNameLen
  · rw [cut_of_short h]
  have hcut : (cut name).length = tensorNameLen - 1 := by
    rw [cut, length_take]
    omega
  have hnone : ∀ n : Bytes, tensorNameLen - 1 ≤ n.length →
      names.find? (fun p => ascii p.1 == n) = none := by
    intro n hn
    rw [find?_eq_none]
    intro p hp heq
    have hlen := hshort p hp
    rw [eq_of_beq heq] at hlen
    omega
  rw [fromName, fromName, hnone _ hcut.ge, hnone _ (by omega)]

def GraphNode.view (n : GraphNode) : OpType × Bytes × List Bytes × List Bytes :=
  (n.opType, n.name.bytes, n.inputs.map bytes, n.outputs.map bytes)

theorem view_toGraphNode {n : ParsedNode} {d : NodeProto} (h : n.view = d.view)
    (hin : d.inputs.length ≤ maxNodeInputsParse) (hout : d.outputs.length ≤ maxNodeOutputsParse) :
    n.toGraphNode.view = (.fromName d.opType, cut d.name, d.inputs.map cut, d.outputs.map cut) := by
  simp only [ParsedNode.view, NodeProto.view, Prod.mk.injEq] at h
  obtain ⟨hop, hname, hins, houts⟩ := h
  rw [List.take_of_length_le (by simpa using hin)] at hins
  rw [List.take_of_length_le (by simpa using hout)] at houts
  have hinlen : n.inputs.items.length ≤ min maxNodeInputsParse maxNodeInputs := by
    simpa [hins, maxNodeInputsParse, maxNodeInputs] using hin
  have houtlen : n.outputs.items.length ≤ min maxNodeOutputsParse maxNodeOutputs := by
    simpa [houts, maxNodeOutputsParse, maxNodeOutputs] using hout
  simp only [GraphNode.view, ParsedNode.toGraphNode, List.take_of_length_le hinlen,
    List.take_of_length_le houtlen, bytes_tensorName, List.map_map]
  rw [hop, hname, hins, houts]
  simp [bytes_name, fromName_cut, Function.comp_def, bytes_tensorName]

def stored (p : TensorName × TensorShape) : Bytes × List Nat := (p.1.bytes, p.2.dims.items)

theorem stored_toGraph {v : ValueInfo} {d : ValueInfoProto} (h : v.view = d.view)
    (hdims : DimsFit d.dims) : stored v.toGraph = (cut d.name, d.dims) := by
  simp only [ValueInfo.view, ValueInfoProto.view, Prod.mk.injEq] at h
  obtain ⟨hname, hshape⟩ := h
  have hstored : v.shape.items.map storedDim = d.dims := by rw [hshape, map_storedDim hdims]
  rw [stored, ValueInfo.toGraph, bytes_tensorName, hname, bytes_name, cut_cut]
  exact Prod.ext rfl hstored

theorem entry_of_view {t : TensorInfo} {d : TensorProto} (h : t.view = d.view)
    (hdims : DimsFit d.dims) : t.entry = (cut d.name, d.dims) ∧ t.hasData = d.hasData := by
  simp only [TensorInfo.view, TensorProto.view, Prod.mk.injEq] at h
  obtain ⟨hname, hshape, hraw, hfloat, hint⟩ := h
  refine ⟨?_, by rw [TensorInfo.hasData, hraw, hfloat, hint]; rfl⟩
  rw [TensorInfo.entry, hname, bytes_name, cut_cut, hshape, map_storedDim hdims]

section

variable {α β γ δ : Type} {f : α → γ} {g : β → γ} {F : α → δ} {G : β → δ}

theorem filter_map_eq {xs : List α} {ys : List β} {p : α → Bool} {q : β → Bool}
    (h : xs.map f = ys.map g) (hview : ∀ x, ∀ y ∈ ys, f x = g y → p x = q y ∧ F x = G y) :
    (xs.filter p).map F = (ys.filter q).map G := by
  induction ys generalizing xs with
  | nil =>
    obtain rfl : xs = [] := by simpa using h
    rfl
  | cons y ys ih =>
    obtain ⟨x, xs, rfl⟩ : ∃ x xs', xs = x :: xs' := by
      apply exists_cons_of_ne_nil
      rintro rfl
      cases h
    rw [map_cons, map_cons, List.cons.injEq] at h
    obtain ⟨hp, hF⟩ := hview x y mem_cons_self h.1
    have hrest := ih h.2 fun x z hz => hview x z (mem_cons_of_mem _ hz)
    rw [filter_cons, filter_cons, hp]
    cases q y with
    | false => exact hrest
    | true => exact congrArg₂ List.cons hF hrest

theorem map_eq_of_views {xs : List α} {ys : List β} (h : xs.map f = ys.map g)
    (hview : ∀ x, ∀ y ∈ ys, f x = g y → F x = G y) : xs.map F = ys.map G := by
  have hall := filter_map_eq (p := fun _ => true) (q := fun _ => true) h
    fun x y hy hxy => ⟨rfl, hview x y hy hxy⟩
  simpa using hall

end

theorem isInitializer_eq {m : ModelProto} {parsed : ParsedOnnx} {vi : ValueInfo}
    {v : ValueInfoProto}
    (h : parsed.initializers.items.map TensorInfo.view = m.initializers.map TensorProto.view)
    (hv : vi.view = v.view) :
    parsed.isInitializer vi = m.initializers.any fun t => cut t.name == cut v.name := by
  have hname : vi.name.bytes = cut v.name :=
    (congrArg (fun p => p.1.bytes) hv).trans (bytes_name v.name)
  have hnames : parsed.initializers.items.map (fun t => t.name.bytes == vi.name.bytes) =
      m.initializers.map fun t => cut t.name == cut v.name := by
    refine map_eq_of_views h fun x y _ hxy => ?_
    have hx : x.name.bytes = cut y.name :=
      (congrArg (fun p => p.1.bytes) hxy).trans (bytes_name y.name)
    rw [hx, hname]
  have hany := congrArg (fun l : List Bool => l.any id) hnames
  simpa [ParsedOnnx.isInitializer, any_map, Function.comp_def] using hany

theorem onnx_stored_whole {fuel now idx : Nat} {mm : Allocator} {reg reg' : ModelRegistry}
    {name : Bytes} {m : ModelProto} (hlen : m.encode.length < 2 ^ 64) (hfits : m.Fits)
    (h : loadModel fuel mm now reg name m.encode = some (.ok idx, reg')) :
    (reg' idx).graph.nodes.map GraphNode.view = (m.nodes.map fun n =>
      (.fromName n.opType, cut n.name, n.inputs.map cut, n.outputs.map cut)) ∧
    (reg' idx).weightTable.items.map WeightEntry.view =
      ((m.initializers.filter TensorProto.hasData).map fun t => (cut t.name, t.dims)) ∧
    (reg' idx).graph.inputs.map stored =
      ((m.inputs.filter fun v => !m.initializers.any fun t => cut t.name == cut v.name).map
        fun v => (cut v.name, v.dims)) ∧
    (reg' idx).graph.outputs.map stored = (m.outputs.map fun v => (cut v.name, v.dims)) ∧
    ∀ a b : Bytes, a.length < tensorNameLen → b.length < tensorNameLen → cut a = cut b → a = b := by
  obtain ⟨p, hp, hgraph, htable⟩ := loadModel_ok h
  obtain ⟨parsed, ptr, c, hparse, -, hcopy, hbuild, hweights, -⟩ := prepareOnnxPayload_ok hp
  have hshows := parseOnnx_shows hlen hparse
  -- the arrays of the parser have room for everything
  have hnodes : parsed.nodes.items.map ParsedNode.view = m.nodes.map NodeProto.view := by
    have hroom : m.nodes.length ≤ maxNodes := hfits.nodes.trans (by decide)
    rw [hshows.nodes]
    exact List.take_of_length_le (by rw [List.length_map]; exact hroom)
  have hinits : parsed.initializers.items.map TensorInfo.view =
      m.initializers.map TensorProto.view := by
    rw [hshows.initializers]
    exact List.take_of_length_le (by rw [List.length_map]; exact hfits.initializers)
  have hinputs : parsed.inputs.items.map ValueInfo.view = m.inputs.map ValueInfoProto.view := by
    rw [hshows.inputs]
    exact List.take_of_length_le (by rw [List.length_map]; exact hfits.inputs)
  have houtputs : parsed.outputs.items.map ValueInfo.view = m.outputs.map ValueInfoProto.view := by
    rw [hshows.outputs]
    exact List.take_of_length_le (by rw [List.length_map]; exact hfits.outputs)
  rw [hgraph, htable, hbuild, hweights]
  refine ⟨?_, ?_, ?_, ?_, ?_⟩
  · have hlength := congrArg List.length hnodes
    rw [List.length_map, List.length_map] at hlength
    simp only [buildGraph]
    rw [List.take_of_length_le (hlength.trans_le hfits.nodes), List.map_map]
    exact map_eq_of_views hnodes fun x y hy hxy =>
      view_toGraphNode hxy (hfits.nodeInputs y hy) (hfits.nodeOutputs y hy)
  · have hentries : (parsed.initializers.items.filter TensorInfo.hasData).map TensorInfo.entry =
        (m.initializers.filter TensorProto.hasData).map fun t => (cut t.name, t.dims) := by
      refine filter_map_eq hinits fun x y hy hxy => ?_
      exact (entry_of_view hxy (hfits.tensorDims y hy)).symm
    have hadds := copyTensors_adds hcopy ((Nat.zero_add _).trans_le parsed.initializers.bound)
    rw [← hentries, ← hadds.kept, hadds.table, map_map]
    refine (map_map ..).trans (map_congr_left fun x _ => ?_)
    exact Prod.ext (bytes_tensorName _) rfl
  · have hlength := congrArg List.length hinputs
    rw [List.length_map, List.length_map] at hlength
    have hfew : (parsed.inputs.items.filter fun vi => !parsed.isInitializer vi).length ≤
        maxGraphIo := (List.length_filter_le _ _).trans (hlength.trans_le hfits.inputs)
    simp only [buildGraph]
    rw [List.take_of_length_le hfew, List.map_map]
    refine filter_map_eq hinputs fun x y hy hxy => ?_
    exact ⟨by rw [isInitializer_eq hinits hxy], stored_toGraph hxy (hfits.inputDims y hy)⟩
  · have hlength := congrArg List.length houtputs
    rw [List.length_map, List.length_map] at hlength
    have hfew : parsed.outputs.items.length ≤ maxGraphIo := hlength.trans_le hfits.outputs
    simp only [buildGraph]
    rw [List.take_of_length_le hfew, List.map_map]
    exact map_eq_of_views houtputs fun x y hy hxy => stored_toGraph hxy (hfits.outputDims y hy)
  intro a b ha hb hab
  rwa [cut_of_short ha, cut_of_short hb] at hab

/-! ## Two files -/

def reluModel : ModelProto :=
  [.irVersion 8, .graph [.node [.input [0x78], .output [0x79], .opType [0x52, 0x65, 0x6C, 0x75]],
      .initializer [.dims [1], .dataType 1, .name [0x77], .rawData [0, 0, 0, 0]],
      .input [.name [0x78], .type [.tensorType [.elemType 1, .shape [.dim [.value 1]]]]]]]

theorem onnx_stored_whole_relu : ∃ reg', reluModel.encode.length < 2 ^ 64 ∧ reluModel.Fits ∧
      loadModel 1 pools 0 (fun _ => .empty) [] reluModel.encode = some (.ok 0, reg') ∧
      (reg' 0).weightTable.items.map WeightEntry.view = [([0x77], [1])] ∧
      (reg' 0).graph.inputs.map stored = [([0x78], [1])] := by
  have hlen : reluModel.encode.length < 2 ^ 64 := by decide
  have hfits : reluModel.Fits :=
    ⟨by decide, by decide, by decide, by decide, by decide, by decide, by decide, by decide,
      by decide⟩
  obtain ⟨reg', h⟩ : ∃ reg', loadModel 1 pools 0 (fun _ => .empty) [] reluModel.encode =
      some (.ok 0, reg') := ⟨_, rfl⟩
  obtain ⟨-, htable, hinputs, -⟩ := onnx_stored_whole hlen hfits h
  exact ⟨reg', hlen, hfits, h, htable, hinputs⟩

def longName (last : UInt8) : Bytes := List.replicate 39 0x61 ++ [last]

def twinModel : ModelProto :=
  [.graph [.node [.input (longName 0x31), .input (longName 0x32), .opType [0x41, 0x64, 0x64]],
      .initializer [.dims [1], .dataType 1, .name (longName 0x31), .rawData [0, 0, 0, 0]]]]

theorem onnx_names_merge :
    ∃ reg' n, loadModel 1 pools 0 (fun _ => .empty) [] twinModel.encode = some (.ok 0, reg') ∧
      twinModel.nodes = [n] ∧ n.inputs = [longName 0x31, longName 0x32] ∧
      longName 0x31 ≠ longName 0x32 ∧
      (reg' 0).graph.nodes.map (fun g => g.inputs.map bytes) =
        [[List.replicate 39 0x61, List.replicate 39 0x61]] := by
  have hload : (loadModel 1 pools 0 (fun _ => .empty) [] twinModel.encode).map
      (fun r => (r.1.toOption, (r.2 0).graph.nodes.map fun g => g.inputs.map bytes)) =
      some (some 0, [[List.replicate 39 0x61, List.replicate 39 0x61]]) := by
    decide +kernel
  obtain ⟨⟨r, reg'⟩, h, heq⟩ := Option.map_eq_some_iff.mp hload
  obtain ⟨hr, hnodes⟩ := Prod.mk.injEq _ _ _ _ ▸ heq
  cases r with
  | error e => cases hr
  | ok idx =>
    cases hr
    exact ⟨reg', _, h, rfl, rfl, by decide, hnodes⟩

end SlmOs.Onnx
