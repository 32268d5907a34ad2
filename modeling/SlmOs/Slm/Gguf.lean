import Mathlib

/-!
# Tensor data in a GGUF file

The tensor table of a file has offsets and no sizes: `tensor_data_at` takes a tensor to
reach to the offset of the next table entry.
-/

namespace SlmOs.Slm

open Option

structure TensorInfo where
  offset : Nat
  deriving DecidableEq, Repr

/-- What `parse` returns; its last check is that the data section starts inside the file. -/
structure Gguf where
  data : List UInt8
  tensors : List TensorInfo
  tensorDataStart : Nat
  start_le : tensorDataStart ≤ data.length

namespace Gguf

def checkedAdd (a b : Nat) : Option Nat := if a + b < 2 ^ 64 then some (a + b) else none

/-- Where the slice of a tensor starts in the file, and where it ends. -/
def tensorRangeAt (g : Gguf) (idx : Nat) : Option (Nat × Nat) := do
  let info ← g.tensors[idx]?
  let absStart ← checkedAdd g.tensorDataStart info.offset
  -- the last tensor reaches to the end of the file
  let endOffset := (g.tensors[idx + 1]?).elim (g.data.length - g.tensorDataStart) (·.offset)
  let absEnd ← checkedAdd g.tensorDataStart endOffset
  if g.data.length < absEnd ∨ absEnd < absStart then none else some (absStart, absEnd)

def tensorDataAt (g : Gguf) (idx : Nat) : Option (List UInt8) :=
  (g.tensorRangeAt idx).map fun r => (g.data.drop r.1).take (r.2 - r.1)

variable {g : Gguf} {i j : Nat} {a b : TensorInfo} {r : Nat × Nat}

theorem checkedAdd_eq (h : checkedAdd m n = some k) : k = m + n := by
  unfold checkedAdd at h
  split at h
  · exact (some.inj h).symm
  · cases h

theorem tensorRangeAt_eq (ha : g.tensors[i]? = some a) (hr : g.tensorRangeAt i = some r) :
    r.1 = g.tensorDataStart + a.offset ∧ r.1 ≤ r.2 ∧ r.2 ≤ g.data.length ∧
      ∀ next, g.tensors[i + 1]? = some next → r.2 = g.tensorDataStart + next.offset := by
  simp only [tensorRangeAt, ha, bind_eq_bind, bind_some, bind_eq_some_iff] at hr
  obtain ⟨start, hstart, stop, hstop, hr⟩ := hr
  split at hr
  · cases hr
  cases hr
  refine ⟨checkedAdd_eq hstart, by omega, by omega, fun next hnext => ?_⟩
  rw [hnext] at hstop
  exact checkedAdd_eq hstop

theorem offset_lt (hup : g.tensors.Pairwise (·.offset < ·.offset)) (hij : i < j)
    (ha : g.tensors[i]? = some a) (hb : g.tensors[j]? = some b) : a.offset < b.offset := by
  obtain ⟨hi, rfl⟩ := List.getElem?_eq_some_iff.mp ha
  obtain ⟨hj, rfl⟩ := List.getElem?_eq_some_iff.mp hb
  exact List.pairwise_iff_getElem.mp hup i j hi hj hij

/--
In a file whose offsets go up in the order of the table, the slice of a tensor starts at
its offset, lies inside the data section and has no byte of a tensor it is separate from.
-/
theorem tensor_slices_separate (g : Gguf) (hup : g.tensors.Pairwise (·.offset < ·.offset))
    (size : Nat → Nat) {i j : Nat} (hne : i ≠ j) {a b : TensorInfo}
    (ha : g.tensors[i]? = some a) (hb : g.tensors[j]? = some b)
    (hsep : a.offset + size i ≤ b.offset ∨ b.offset + size j ≤ a.offset)
    {r : Nat × Nat} (hr : g.tensorRangeAt i = some r) :
    g.tensorDataAt i = some ((g.data.drop r.1).take (r.2 - r.1)) ∧
      r.1 = g.tensorDataStart + a.offset ∧ r.1 ≤ r.2 ∧ r.2 ≤ g.data.length ∧
      ∀ k, r.1 ≤ k → k < r.2 →
        ¬ (g.tensorDataStart + b.offset ≤ k ∧ k < g.tensorDataStart + b.offset + size j) := by
  obtain ⟨hstart, hle, hin, hnext⟩ := tensorRangeAt_eq ha hr
  refine ⟨by rw [tensorDataAt, hr, map_some], hstart, hle, hin, fun k hk hk' hin' => ?_⟩
  rcases Nat.lt_or_gt_of_ne hne with hij | hij
  · -- the slice ends at the next entry, which is not after `b`
    obtain ⟨hj, -⟩ := List.getElem?_eq_some_iff.mp hb
    rcases Nat.eq_or_lt_of_le hij with rfl | hlt
    · have hstop := hnext b hb
      omega
    have hnext' := List.getElem?_eq_getElem (l := g.tensors) (i := i + 1) (by omega)
    have hstop := hnext _ hnext'
    have := offset_lt hup hlt hnext' hb
    omega
  have := offset_lt hup hij hb ha
  omega

/-- Three tensors of 32 bytes each; `offsets` is their order in the table. -/
def threeTensors (offsets : List Nat) : Gguf :=
  ⟨List.replicate 224 0, offsets.map TensorInfo.mk, 128, by rw [List.length_replicate]; decide⟩

theorem tensor_slices_separate_in_order :
    (threeTensors [0, 32, 64]).tensorRangeAt 1 = some (160, 192) ∧
      ∀ k, 160 ≤ k → k < 192 → ¬ (128 + 64 ≤ k ∧ k < 128 + 64 + 32) := by
  have hr : (threeTensors [0, 32, 64]).tensorRangeAt 1 = some (160, 192) := by decide +kernel
  exact ⟨hr, (tensor_slices_separate _ (by simp [threeTensors]) (fun _ => 32)
    (show 1 ≠ 2 by decide) rfl rfl (.inl (by decide)) hr).2.2.2.2⟩

/-- The table lists the first tensor of the file second: its slice runs on into the one
that is listed before it, and that one has no slice. -/
theorem tensor_slice_holds_another : ∃ (g : Gguf) (a b : TensorInfo) (r : Nat × Nat) (k : Nat),
    g.tensors[1]? = some a ∧ g.tensors[0]? = some b ∧ a.offset + 32 ≤ b.offset ∧
      g.tensorRangeAt 1 = some r ∧ r.1 ≤ k ∧ k < r.2 ∧ g.tensorDataStart + b.offset ≤ k ∧
      k < g.tensorDataStart + b.offset + 32 ∧ g.tensorDataAt 0 = none :=
  ⟨threeTensors [32, 0, 64], ⟨0⟩, ⟨32⟩, (128, 192), 160, rfl, rfl, by decide, by decide +kernel,
    by decide, by decide, by decide, by decide, by decide +kernel⟩

end Gguf

end SlmOs.Slm
