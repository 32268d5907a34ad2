import SlmOs.Loader.Registry
import SlmOs.Onnx.Parser

/-!
# The weights of an ONNX model in their block

`prepare_onnx_payload` of `runtime/src/loader/registry.rs`, with the bytes that it writes
through the pointer to the block.  The copies stay inside of the block exactly when the
tensors that the file has data for fit into it: the pool gives blocks of one size, and what
is checked is the size that was asked for.
-/

namespace SlmOs.Onnx

open Foundation ModelMem Loader List TensorInfo

def normalize : Nat → Nat → Int → Nat × Int
  | 0, m, e => (m, e)
  | fuel + 1, m, e => if m &&& 0x400 = 0 then normalize fuel (m <<< 1) (e - 1) else (m, e)

/-- The bits of `fp16_to_f32`. -/
def fp16ToF32 (half : Nat) : Nat :=
  let sign := half >>> 15 &&& 1
  let exp := half >>> 10 &&& 0x1F
  let mant := half &&& 0x3FF
  if exp = 0 then
    if mant = 0 then sign <<< 31
    else
      let (m, e) := normalize 10 mant (-14)
      sign <<< 31 ||| ((e + 127).toNat &&& 0xFF) <<< 23 ||| (m &&& 0x3FF) <<< 13
  else if exp = 0x1F then sign <<< 31 ||| 0xFF <<< 23 ||| mant <<< 13
  else sign <<< 31 ||| (exp - 15 + 127) <<< 23 ||| mant <<< 13

structure Allocator where
  allocWeights : Nat → Except AllocError ModelHandle
  getPtr : ModelHandle → Option Nat
  allocWorkspace : Nat → Except AllocError ModelHandle

structure Write where
  addr : Nat
  bytes : Bytes
  deriving DecidableEq, Repr

def maxItems : Nat := 64 / 8

/-- The loop over the items of `int64_data`: the decoded bytes, or `some none` if there are
too many.  An error leaves the iterator where it is, and the loop goes on. -/
def decodeInt64 : Nat → Nat → Bytes → Bytes → Option (Option Bytes)
  | 0, _, _, _ => none
  | fuel + 1, itemCount, decoded, rest =>
    match PackedVarintIter.next rest with
    | none => some (some decoded)
    | some (val, rest) =>
      if maxItems ≤ itemCount then some none
      else
        match val with
        | .ok v => decodeInt64 fuel (itemCount + 1) (decoded ++ toLe 8 v) rest
        | .error _ => decodeInt64 fuel itemCount decoded rest

/-- Where the data of a tensor comes from; a tensor without data is skipped. -/
inductive Source where
  | bytes (src : Bytes)
  | overflow
  | missing
  deriving DecidableEq, Repr

def TensorInfo.source (fuel : Nat) (t : TensorInfo) : Option Source :=
  match t.rawData, t.floatData, t.int64Data with
  | some raw, _, _ => some (.bytes raw)
  | none, some floats, _ => some (.bytes floats)
  | none, none, some packed =>
    match decodeInt64 fuel 0 [] packed with
    | none => none
    | some none => some .overflow
    | some (some decoded) => some (.bytes decoded)
  | none, none, none => some .missing

def TensorInfo.isFp16 (t : TensorInfo) : Bool := decide (t.dataType = .float16)

def TensorInfo.sizeOf (t : TensorInfo) (n : Nat) : Nat := if t.isFp16 then n / 2 * 4 else n

def TensorInfo.tensorShape (t : TensorInfo) : TensorShape where
  dims := ⟨t.shape.items.map fun d => if 0 < d then d.toNat % 2 ^ 32 else 1, by
    simpa using t.shape.bound⟩
  elemType := if t.isFp16 then .float else .fromOnnx t.dataType.toU32

def TensorInfo.store (t : TensorInfo) (dest : Nat) (src : Bytes) : List Write :=
  if t.isFp16 then
    (List.range (src.length / 2)).map fun e =>
      ⟨dest + 4 * e, toLe 4 (fp16ToF32 (leNat ((src.drop (e * 2)).take 2)))⟩
  else [⟨dest, src⟩]

structure Copy where
  offset : Nat
  table : WeightTable
  writes : List Write

def Copy.add (ptr : Nat) (c : Copy) (t : TensorInfo) (src : Bytes) : Copy where
  offset := c.offset + t.sizeOf src.length
  table := c.table.push
    ⟨.fromBytes t.name.bytes, c.offset % 2 ^ 32, t.sizeOf src.length % 2 ^ 32, t.tensorShape⟩
  writes := c.writes ++ t.store (ptr + c.offset) src

def Copy.tensor (fuel total ptr : Nat) (c : Copy) (t : TensorInfo) :
    Option (Except LoadError Copy) :=
  if t.dataSize = 0 then some (.ok c)
  else
    match t.source fuel with
    | none => none
    | some .missing => some (.ok c)
    | some .overflow => some (.error .corruptedData)
    | some (.bytes src) =>
      let fin := c.offset + t.sizeOf src.length
      if fin ≤ maxUsize ∧ fin ≤ total then some (.ok (c.add ptr t src))
      else some (.error .corruptedData)

def copyTensors (fuel total ptr : Nat) : Copy → List TensorInfo → Option (Except LoadError Copy)
  | c, [] => some (.ok c)
  | c, t :: ts =>
    match c.tensor fuel total ptr t with
    | none => none
    | some (.error e) => some (.error e)
    | some (.ok c) => copyTensors fuel total ptr c ts

def modelNameLen : Nat := 32

/-- `ModelInfoC` as far as it is filled here. -/
structure ModelInfo where
  name : Bytes
  paramCount : Nat
  weightSize : Nat
  workspaceSize : Nat
  nodeCount : Nat
  inputCount : Nat
  outputCount : Nat
  deriving DecidableEq, Repr

/-- `PreparedPayload`, with what has been written into the block on the way. -/
structure Prepared where
  weights : ModelHandle
  workspace : ModelHandle
  graph : OperatorGraph
  weightTable : WeightTable
  info : ModelInfo
  writes : List Write

def ParsedOnnx.info (m : ParsedOnnx) (name : Bytes) (workspaceSize : Nat) : ModelInfo where
  name := name.take (min name.length (modelNameLen - 1))
  paramCount := (m.initializers.items.map TensorInfo.numElements).sum % 2 ^ 64
  weightSize := m.totalWeightSizeExpanded
  workspaceSize := workspaceSize
  nodeCount := (buildGraph m).nodes.length
  inputCount := (buildGraph m).inputs.length
  outputCount := m.outputs.items.length

/-- `prepare_onnx_payload`, for at most `fuel` rounds of an inner loop. -/
def prepareOnnxPayload (fuel : Nat) (mm : Allocator) (name data : Bytes) :
    Option (Except LoadError Prepared) :=
  match parseOnnx data with
  | .error _ => some (.error .corruptedData)
  | .ok parsed =>
    let total := parsed.totalWeightSizeExpanded
    if total = 0 then some (.error .invalidFormat)
    else
      match mm.allocWeights total with
      | .error e => some (.error (.ofAlloc e))
      | .ok weights =>
        match mm.getPtr weights with
        | none => some (.error .allocFailed)
        | some ptr =>
          match copyTensors fuel total ptr ⟨0, .empty, []⟩ parsed.initializers.items with
          | none => none
          | some (.error e) => some (.error e)
          | some (.ok c) =>
            let workspaceSize := max (total / 4) (64 * 1024)
            match mm.allocWorkspace workspaceSize with
            | .error e => some (.error (.ofAlloc e))
            | .ok workspace =>
              some (.ok ⟨weights, workspace, buildGraph parsed, c.table,
                parsed.info name workspaceSize, c.writes⟩)

/-! ## What is stored -/

/-- The bytes that the data of a tensor takes in the block: a packed integer ends with
each byte below 128 and takes eight. -/
def TensorInfo.storedSize (t : TensorInfo) : Nat :=
  if t.dataSize = 0 then 0
  else
    match t.rawData, t.floatData, t.int64Data with
    | some raw, _, _ => t.sizeOf raw.length
    | none, some floats, _ => t.sizeOf floats.length
    | none, none, some packed => t.sizeOf (8 * packed.countP endsVarint)
    | none, none, none => 0

def ParsedOnnx.storedSize (m : ParsedOnnx) : Nat :=
  (m.initializers.items.map TensorInfo.storedSize).sum

def Write.covers (w : Write) (a : Nat) : Prop := w.addr ≤ a ∧ a < w.addr + w.bytes.length

section

variable {fuel total ptr : Nat}

theorem decodeInt64_length (h : decodeInt64 fuel itemCount decoded rest = some (some d)) :
    d.length = decoded.length + 8 * rest.countP endsVarint := by
  induction fuel generalizing itemCount decoded rest with
  | zero => cases h
  | succ fuel ih =>
    cases rest with
    | nil =>
      cases h
      simp
    | cons b bs =>
      simp only [decodeInt64, PackedVarintIter.next] at h
      cases hv : decodeVarint (b :: bs) with
      | error e =>
        simp only [hv] at h
        split_ifs at h
        · cases h
        · exact ih h
      | ok r =>
        obtain ⟨v, len⟩ := r
        simp only [hv] at h
        split_ifs at h
        · cases h
        obtain ⟨-, -, hcount⟩ := decodeVarint_ok hv
        have hrest := ih h
        have hsplit : (b :: bs).countP endsVarint = ((b :: bs).take len).countP endsVarint +
              ((b :: bs).drop len).countP endsVarint := by
          rw [← countP_append, take_append_drop]
        rw [hrest, length_append, toLe_length, hsplit, hcount]
        omega

variable {t : TensorInfo}

theorem source_bytes (hsize : t.dataSize ≠ 0)
    (h : t.source fuel = some (.bytes src)) : t.sizeOf src.length = t.storedSize := by
  unfold source at h
  rw [storedSize, if_neg hsize]
  split at h
  · cases h
    rfl
  · cases h
    rfl
  · split at h
    · cases h
    · cases h
    · rename_i decoded hdecoded
      cases h
      rw [decodeInt64_length hdecoded]
      simp
  · cases h

theorem source_missing (hsize : t.dataSize ≠ 0)
    (h : t.source fuel = some .missing) : t.storedSize = 0 := by
  unfold source at h
  rw [storedSize, if_neg hsize]
  split at h
  · cases h
  · cases h
  · split at h <;> cases h
  · rfl

theorem store_fills (t : TensorInfo) (dest : Nat) (src : Bytes) :
    (∀ w ∈ t.store dest src, dest ≤ w.addr ∧ w.addr + w.bytes.length ≤ dest + t.sizeOf src.length) ∧
    (0 < t.sizeOf src.length →
      ∃ w ∈ t.store dest src, w.covers (dest + t.sizeOf src.length - 1)) := by
  unfold TensorInfo.store TensorInfo.sizeOf
  split_ifs
  · constructor
    · intro w hw
      obtain ⟨e, he, rfl⟩ := List.mem_map.mp hw
      have hlt := List.mem_range.mp he
      simp only [toLe_length]
      omega
    · intro hpos
      have hmem : src.length / 2 - 1 ∈ List.range (src.length / 2) := List.mem_range.mpr (by omega)
      refine ⟨_, List.mem_map_of_mem hmem, ?_⟩
      simp only [Write.covers, toLe_length]
      omega
  constructor
  · intro w hw
    obtain rfl := List.mem_singleton.mp hw
    exact ⟨le_rfl, le_rfl⟩
  intro hpos
  refine ⟨_, List.mem_singleton_self _, ?_⟩
  simp only [Write.covers]
  omega

/-- What has been copied fills the block up to the offset, and so does the table. -/
structure Copy.Fills (ptr : Nat) (c : Copy) : Prop where
  writes : ∀ w ∈ c.writes, ptr ≤ w.addr ∧ w.addr + w.bytes.length ≤ ptr + c.offset
  last : 0 < c.offset → ∃ w ∈ c.writes, w.covers (ptr + c.offset - 1)
  table : ∀ e ∈ c.table.items, e.offset + e.size ≤ c.offset

theorem fills_empty (ptr : Nat) : Copy.Fills ptr ⟨0, .empty, []⟩ where
  writes := by simp
  last := by simp
  table := by simp [Capped.empty]

theorem mem_push {α : Type} {cap : Nat} {c : Capped α cap} {a b : α}
    (h : b ∈ (c.push a).items) : b ∈ c.items ∨ b = a := by
  unfold Capped.push at h
  split at h
  · simpa using h
  · exact .inl h

theorem Copy.Fills.add {c : Copy} (hf : c.Fills ptr) (t : TensorInfo) (src : Bytes) :
    (c.add ptr t src).Fills ptr := by
  obtain ⟨hin, hlast⟩ := store_fills t (ptr + c.offset) src
  constructor
  · intro w hw
    rcases mem_append.mp hw with hw | hw
    · have hold := hf.writes w hw
      simp only [Copy.add]
      omega
    have hnew := hin w hw
    simp only [Copy.add]
    omega
  · intro hpos
    simp only [Copy.add] at hpos ⊢
    -- an empty tensor leaves the last byte where it is
    by_cases hempty : t.sizeOf src.length = 0
    · obtain ⟨w, hw, hcovers⟩ := hf.last (by omega)
      exact ⟨w, mem_append_left _ hw, by simpa [hempty] using hcovers⟩
    obtain ⟨w, hw, hcovers⟩ := hlast (by omega)
    refine ⟨w, mem_append_right _ hw, ?_⟩
    rwa [← Nat.add_assoc]
  intro e he
  rcases mem_push he with he | rfl
  · have hold := hf.table e he
    simp only [Copy.add]
    omega
  simp only [Copy.add]
  omega

theorem Copy.Fills.tensor {c c' : Copy} (hf : c.Fills ptr)
    (h : c.tensor fuel total ptr t = some (.ok c')) :
    c'.Fills ptr ∧ c'.offset = c.offset + t.storedSize := by
  unfold Copy.tensor at h
  split at h
  · rename_i hsize
    cases h
    exact ⟨hf, by simp [storedSize, hsize]⟩
  rename_i hsize
  split at h
  · cases h
  · rename_i hsource
    cases h
    exact ⟨hf, by simp [source_missing hsize hsource]⟩
  · cases h
  rename_i src hsource
  dsimp only at h
  split at h
  · cases h
    exact ⟨hf.add t src, by rw [← source_bytes hsize hsource]; rfl⟩
  · cases h

theorem Copy.Fills.run {c c' : Copy} {ts : List TensorInfo} (hf : c.Fills ptr)
    (h : copyTensors fuel total ptr c ts = some (.ok c')) :
    c'.Fills ptr ∧ c'.offset = c.offset + (ts.map TensorInfo.storedSize).sum := by
  induction ts generalizing c with
  | nil =>
    cases h
    exact ⟨hf, by simp⟩
  | cons t ts ih =>
    simp only [copyTensors] at h
    split at h
    · cases h
    · cases h
    rename_i c₁ hstep
    obtain ⟨hf₁, hoffset⟩ := hf.tensor hstep
    obtain ⟨hf', hrun⟩ := ih hf₁ h
    refine ⟨hf', ?_⟩
    rw [hrun, hoffset, map_cons, sum_cons, Nat.add_assoc]

theorem prepareOnnxPayload_ok {mm : Allocator} {name data : Bytes} {p : Prepared}
    (h : prepareOnnxPayload fuel mm name data = some (.ok p)) :
    ∃ parsed ptr c, parseOnnx data = .ok parsed ∧ mm.getPtr p.weights = some ptr ∧
      copyTensors fuel parsed.totalWeightSizeExpanded ptr ⟨0, .empty, []⟩
        parsed.initializers.items = some (.ok c) ∧
      p.graph = buildGraph parsed ∧ p.weightTable = c.table ∧ p.writes = c.writes := by
  unfold prepareOnnxPayload at h
  split at h
  · cases h
  rename_i parsed hparse
  dsimp only at h
  split at h
  · cases h
  split at h
  · cases h
  split at h
  · cases h
  rename_i ptr hptr
  split at h
  · cases h
  · cases h
  rename_i c hcopy
  split at h
  · cases h
  cases h
  exact ⟨parsed, ptr, c, hparse, hptr, hcopy, rfl, rfl, rfl⟩

theorem onnx_stays_in_block {mm : Allocator} {name data : Bytes} {parsed : ParsedOnnx}
    {p : Prepared} {ptr : Nat} (hparse : parseOnnx data = .ok parsed)
    (h : prepareOnnxPayload fuel mm name data = some (.ok p))
    (hptr : mm.getPtr p.weights = some ptr) :
    ((∀ w ∈ p.writes, ∀ a, w.covers a → ptr ≤ a ∧ a < ptr + blockSize) ∧
      ∀ e ∈ p.weightTable.items, e.offset + e.size ≤ blockSize) ↔
    parsed.storedSize ≤ blockSize := by
  obtain ⟨parsed', ptr', c, hparse', hptr', hcopy, -, htable, hwrites⟩ := prepareOnnxPayload_ok h
  obtain rfl : ptr' = ptr := Option.some.inj (hptr'.symm.trans hptr)
  obtain rfl : parsed' = parsed := Except.ok.inj (hparse'.symm.trans hparse)
  obtain ⟨hfills, hoffset⟩ := (fills_empty ptr').run hcopy
  rw [Nat.zero_add, ← ParsedOnnx.storedSize] at hoffset
  rw [htable, hwrites, ← hoffset]
  constructor
  · rintro ⟨hinside, -⟩
    -- the last byte that was written is inside of the block
    by_contra hlarge
    obtain ⟨w, hw, hcovers⟩ := hfills.last (by omega)
    have hlt := (hinside w hw _ hcovers).2
    omega
  intro hsmall
  refine ⟨fun w hw a ha => ?_, fun e he => (hfills.table e he).trans hsmall⟩
  obtain ⟨hge, hle⟩ := hfills.writes w hw
  obtain ⟨hstart, hend⟩ := ha
  omega

end

/-! ## A file that fits and one that does not -/

def pools : Allocator where
  allocWeights := fun _ => .ok ⟨0, 0, 0⟩
  getPtr := fun _ => some 0x200000
  allocWorkspace := fun _ => .ok ⟨0, 1, 0⟩

def smallModel : Bytes := [0x3A, 10, 0x2A, 8, 0x10, 1, 0x6A, 4, 1, 2, 3, 4]

def smallParsed : ParsedOnnx :=
  { ParsedOnnx.new with
    initializers :=
      ⟨[{ TensorInfo.empty with dataType := .float, rawData := some [1, 2, 3, 4] }], by decide⟩ }

theorem onnx_stays_in_block_small : ∃ p, parseOnnx smallModel = .ok smallParsed ∧
      prepareOnnxPayload 1 pools [] smallModel = some (.ok p) ∧
      pools.getPtr p.weights = some 0x200000 ∧ smallParsed.storedSize ≤ blockSize ∧
      ∀ w ∈ p.writes, ∀ a, w.covers a → 0x200000 ≤ a ∧ a < 0x200000 + blockSize := by
  have hparse : parseOnnx smallModel = .ok smallParsed := rfl
  have hsmall : smallParsed.storedSize ≤ blockSize := by decide
  obtain ⟨p, hp, hptr⟩ : ∃ p, prepareOnnxPayload 1 pools [] smallModel = some (.ok p) ∧
      pools.getPtr p.weights = some 0x200000 := ⟨_, rfl, rfl⟩
  exact ⟨p, hparse, hp, hptr, hsmall, ((onnx_stays_in_block hparse hp hptr).mpr hsmall).1⟩

section

variable {tag : UInt8} {lenBytes payload : Bytes}
  (htag : ∀ rest, decodeVarint (tag :: rest) = .ok (tag.toNat, 1))
  (hnumber : tag.toNat >>> 3 % 2 ^ 32 ≠ 0) (htype : tag.toNat &&& 7 = 2)
  (hlen : decodeVarint (lenBytes ++ payload) = .ok (payload.length, lenBytes.length))

include htag hnumber htype hlen

theorem next_bytes : ProtoIter.next (tag :: (lenBytes ++ payload)) =
      some (.ok ⟨tag.toNat >>> 3 % 2 ^ 32, .lengthDelimited, .bytes payload⟩, []) := by
  have hvalue : readValue .lengthDelimited (lenBytes ++ payload) =
      .ok (.bytes payload, lenBytes.length + payload.length) := by
    simp [readValue, hlen, bind, Except.bind, pure, Except.pure]
  have hfield : readField (tag :: (lenBytes ++ payload)) =
      .ok (⟨tag.toNat >>> 3 % 2 ^ 32, .lengthDelimited, .bytes payload⟩,
        1 + (lenBytes.length + payload.length)) := by
    simp only [readField, htag, bind, Except.bind, hnumber, htype, if_false]
    simp [WireType.fromU8, hvalue, pure, Except.pure]
  simp only [ProtoIter.next, hfield]
  simp [Nat.add_comm]

theorem forEach_bytes {σ : Type} {body : σ → ProtoField → Except ParseError σ} {s s' : σ}
    (hbody : body s ⟨tag.toNat >>> 3 % 2 ^ 32, .lengthDelimited, .bytes payload⟩ = .ok s') :
    forEach ProtoIter.next body s (tag :: (lenBytes ++ payload)) = .ok s' := by
  rw [forEach_item protoIter_advances (next_bytes htag hnumber htype hlen) hbody]
  rfl

end

/-- A model whose only initializer has the given data, of 2 MB and one byte. -/
def largeTensor (raw : Bytes) : Bytes := 0x6A :: ([0x81, 0x80, 0x80, 0x01] ++ raw)

def largeGraph (raw : Bytes) : Bytes :=
  0x2A :: ([0x86, 0x80, 0x80, 0x01] ++ largeTensor raw)

def largeModel (raw : Bytes) : Bytes := 0x3A :: ([0x8B, 0x80, 0x80, 0x01] ++ largeGraph raw)

section

variable {raw : Bytes}

theorem parseTensorProto_large (h : raw.length = blockSize + 1) :
    parseTensorProto (largeTensor raw) = .ok { TensorInfo.empty with rawData := some raw } := by
  refine forEach_bytes (fun _ => rfl) (by decide) (by decide) ?_ rfl
  rw [h]
  rfl

def largeParsed (raw : Bytes) : ParsedOnnx :=
  { ParsedOnnx.new with
    initializers := ⟨[{ TensorInfo.empty with rawData := some raw }], Nat.le_add_left 1 15⟩ }

section

variable (h : raw.length = blockSize + 1)
include h

theorem parseGraph_large : parseGraph (largeGraph raw) .new = .ok (largeParsed raw) := by
  refine forEach_bytes (fun _ => rfl) (by decide) (by decide) ?_ ?_
  · simp only [largeTensor, List.length_cons, List.length_append, h]
    rfl
  have hparse : ParsedOnnx.new.initializers.parse parseTensorProto (largeTensor raw) =
      .ok (largeParsed raw).initializers := by
    simp only [Capped.parse, parseTensorProto_large h]
    rfl
  exact bind_eq_ok.mpr ⟨_, hparse, rfl⟩

theorem parseOnnx_large : parseOnnx (largeModel raw) = .ok (largeParsed raw) := by
  refine forEach_bytes (fun _ => rfl) (by decide) (by decide) ?_ (parseGraph_large h)
  simp only [largeGraph, largeTensor, List.length_cons, List.length_append, h]
  rfl

theorem copyTensors_large :
    copyTensors 1 (blockSize + 1) 0x200000 ⟨0, .empty, []⟩ (largeParsed raw).initializers.items =
      some (.ok (Copy.add 0x200000 ⟨0, .empty, []⟩
        { TensorInfo.empty with rawData := some raw } raw)) := by
  simp [copyTensors, Copy.tensor, largeParsed, TensorInfo.dataSize, TensorInfo.source,
    TensorInfo.sizeOf, TensorInfo.isFp16, TensorInfo.empty, h, maxUsize, blockSize]

theorem prepareOnnxPayload_large :
    ∃ p, prepareOnnxPayload 1 pools [] (largeModel raw) = some (.ok p) ∧
      p.writes = [⟨0x200000, raw⟩] := by
  have htotal : (largeParsed raw).totalWeightSizeExpanded = blockSize + 1 := by
    simp [ParsedOnnx.totalWeightSizeExpanded, largeParsed, expandedSize,
      dataSize, empty, h, maxUsize, blockSize]
  simp only [prepareOnnxPayload, parseOnnx_large h, htotal, pools, copyTensors_large h]
  exact ⟨_, rfl, rfl⟩

end

end

/-- The tensor is copied over the end of the block. -/
theorem onnx_overruns_block : ∃ (data : Bytes) (p : Prepared) (w : Write),
      prepareOnnxPayload 1 pools [] data = some (.ok p) ∧
      pools.getPtr p.weights = some 0x200000 ∧ w ∈ p.writes ∧
      w.covers (0x200000 + blockSize) := by
  have hlength : (List.replicate (blockSize + 1) (0 : UInt8)).length = blockSize + 1 :=
    length_replicate
  obtain ⟨p, hp, hwrites⟩ := prepareOnnxPayload_large hlength
  refine ⟨_, p, ⟨0x200000, List.replicate (blockSize + 1) 0⟩, hp, rfl, by simp [hwrites], ?_⟩
  simp [Write.covers]

end SlmOs.Onnx
