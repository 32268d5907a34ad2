import SlmOs.Onnx.Payload

/-!
# The weight table of an ONNX model

What `prepare_onnx_payload` writes into the weight table, and what `bind_weights` of
`runtime/src/inference/engine.rs` makes of it.  The decoded data of the tensors lies in the
block one behind the other.  Nothing compares its length with the shape of the tensor, and
nothing pads it to the size of an element.
-/

namespace SlmOs.Onnx

open Foundation ModelMem List TensorInfo

def ElemType.size : ElemType → Nat
  | .float => 4
  | .uInt8 => 1
  | .int8 => 1
  | .int32 => 4
  | .int64 => 8
  | .float16 => 2
  | .unknown => 0

def TensorShape.numElements (s : TensorShape) : Nat :=
  if s.dims.items = [] then 0
  else s.dims.items.foldl (fun total d => min (total * d) maxUsize) 1

instance (w : Write) (a : Nat) : Decidable (w.covers a) := inferInstanceAs (Decidable (_ ∧ _))

def Write.apply (block : Nat → Option UInt8) (w : Write) (a : Nat) : Option UInt8 :=
  if w.covers a then w.bytes[a - w.addr]? else block a

def written (ws : List Write) : Nat → Option UInt8 := ws.foldl Write.apply fun _ => none

/-! ## Where the data goes -/

structure Placed where
  offset : Nat
  tensor : TensorInfo
  src : Bytes

namespace Placed

def size (x : Placed) : Nat := x.tensor.sizeOf x.src.length

def shape (x : Placed) : TensorShape := x.tensor.tensorShape

def entry (x : Placed) : WeightEntry :=
  ⟨.fromBytes x.tensor.name.bytes, x.offset % 2 ^ 32, x.size % 2 ^ 32, x.shape⟩

def store (ptr : Nat) (x : Placed) : List Write := x.tensor.store (ptr + x.offset) x.src

def decoded (x : Placed) : Bytes :=
  if x.tensor.isFp16 then
    (range (x.src.length / 2)).flatMap fun e =>
      toLe 4 (fp16ToF32 (leNat ((x.src.drop (e * 2)).take 2)))
  else x.src

def Before (x y : Placed) : Prop := x.offset + x.size ≤ y.offset

end Placed

def placed (fuel : Nat) : Nat → List TensorInfo → List Placed
  | _, [] => []
  | offset, t :: ts =>
    match t.dataSize, t.source fuel with
    | _ + 1, some (.bytes src) => ⟨offset, t, src⟩ :: placed fuel (offset + t.sizeOf src.length) ts
    | _, _ => placed fuel offset ts

def TensorInfo.hasData (t : TensorInfo) : Bool :=
  !((t.rawData.or (t.floatData.or t.int64Data)).getD []).isEmpty

section

variable {fuel total ptr : Nat} {t : TensorInfo} {c c' : Copy} {x : Placed} {l : List Placed}

theorem hasData_of_empty (h : t.dataSize = 0) : t.hasData = false := by
  unfold TensorInfo.dataSize at h
  unfold TensorInfo.hasData
  split at h <;> simp_all

theorem hasData_of_missing (h : t.source fuel = some .missing) : t.hasData = false := by
  unfold TensorInfo.source at h
  split at h
  · cases h
  · cases h
  · split at h <;> cases h
  · simp_all [TensorInfo.hasData]

theorem hasData_of_bytes (hsize : t.dataSize ≠ 0)
    (h : t.source fuel = some (.bytes src)) : t.hasData = true := by
  unfold TensorInfo.source at h
  unfold TensorInfo.dataSize at hsize
  unfold TensorInfo.hasData
  split at h <;> simp_all [List.length_eq_zero_iff]

theorem tensor_ok (h : c.tensor fuel total ptr t = some (.ok c')) :
    (c' = c ∧ t.hasData = false ∧ ∀ ts, placed fuel c.offset (t :: ts) = placed fuel c.offset ts) ∨
    ∃ src, c' = c.add ptr t src ∧ t.hasData = true ∧
      ∀ ts, placed fuel c.offset (t :: ts) = ⟨c.offset, t, src⟩ :: placed fuel c'.offset ts := by
  unfold Copy.tensor at h
  split at h
  · rename_i hsize
    cases h
    exact .inl ⟨rfl, hasData_of_empty hsize, fun ts => by simp [placed, hsize]⟩
  rename_i hsize
  obtain ⟨n, hn⟩ := Nat.exists_eq_succ_of_ne_zero hsize
  split at h
  · cases h
  · rename_i hsource
    cases h
    exact .inl ⟨rfl, hasData_of_missing hsource, fun ts => by simp [placed, hsource]⟩
  · cases h
  rename_i src hsource
  dsimp only at h
  split at h
  · cases h
    exact .inr ⟨src, rfl, hasData_of_bytes hsize hsource, fun ts => by
      simp [placed, hn, hsource, Copy.add]⟩
  · cases h

/-- What the loop over the tensors adds to the table and to the block. -/
structure Copy.Adds (ptr : Nat) (c c' : Copy) (ts : List TensorInfo) (l : List Placed) : Prop where
  kept : l.map Placed.tensor = ts.filter TensorInfo.hasData
  table : c'.table.items = c.table.items ++ l.map Placed.entry
  writes : c'.writes = c.writes ++ l.flatMap (Placed.store ptr)
  inside : ∀ x ∈ l, c.offset ≤ x.offset ∧ x.offset + x.size ≤ c'.offset
  order : l.Pairwise Placed.Before
  grows : c.offset ≤ c'.offset

theorem copyTensors_adds {ts : List TensorInfo}
    (h : copyTensors fuel total ptr c ts = some (.ok c'))
    (hroom : c.table.items.length + ts.length ≤ maxWeightEntries) :
    c.Adds ptr c' ts (placed fuel c.offset ts) := by
  induction ts generalizing c with
  | nil =>
    cases h
    refine ⟨?_, ?_, ?_, ?_, ?_, le_rfl⟩ <;> simp [placed]
  | cons t ts ih =>
    simp only [copyTensors] at h
    split at h
    · cases h
    · cases h
    rename_i c₁ htensor
    rw [length_cons] at hroom
    rcases tensor_ok htensor with ⟨rfl, hdata, hplaced⟩ | ⟨src, rfl, hdata, hplaced⟩
    · have hrest := ih h (by omega)
      rw [hplaced]
      exact { hrest with kept := by rw [hrest.kept, filter_cons_of_neg (by simp [hdata])] }
    have hpush : (c.add ptr t src).table.items =
        c.table.items ++ [Placed.entry ⟨c.offset, t, src⟩] := by
      rw [Copy.add, Capped.push, dif_pos (by omega)]
      rfl
    have hrest := ih h (by rw [hpush, length_append, length_singleton]; omega)
    have hoffset : (c.add ptr t src).offset = c.offset + t.sizeOf src.length := rfl
    have hgrows := hrest.grows
    rw [hplaced]
    refine ⟨?_, ?_, ?_, fun x hx => ?_, pairwise_cons.mpr ⟨fun y hy => ?_, hrest.order⟩, by omega⟩
    · rw [map_cons, hrest.kept, filter_cons_of_pos hdata]
    · rw [hrest.table, hpush, append_assoc]
      rfl
    · rw [hrest.writes, flatMap_cons, ← append_assoc]
      rfl
    · rcases mem_cons.mp hx with rfl | hx
      · exact ⟨le_rfl, hgrows⟩
      · have := hrest.inside x hx
        omega
    · exact (hrest.inside y hy).1

/-! ## What is in the block -/

theorem entry_eq (hend : x.offset + x.size < 2 ^ 32) :
    x.entry.offset = x.offset ∧ x.entry.size = x.size :=
  ⟨Nat.mod_eq_of_lt (by omega), Nat.mod_eq_of_lt (by omega)⟩

end

end SlmOs.Onnx
