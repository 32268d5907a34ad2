import SlmOs.Foundation.Dyadic
import SlmOs.Pmm.Allocator

/-!
# Orders and blocks

A block is an address with an order.  Its geometry is that of the dyadic block
of level `order + pageShift`; here it is restated in the allocator's own terms,
together with the notion of a family of blocks that tiles a set of bytes.
-/

namespace SlmOs.Pmm

open Foundation Set
open DyadicBlock (base cells eq_of_cell ext level)

/-! ## Orders -/

theorem orderToSize_eq (o : Nat) : orderToSize o = 2 ^ (o + pageShift) := by
  rw [pow_add]
  rfl

theorem orderToSize_pos (o : Nat) : 0 < orderToSize o := by
  rw [orderToSize_eq]
  exact Nat.two_pow_pos _

theorem orderToSize_succ (o : Nat) : orderToSize (o + 1) = orderToSize o + orderToSize o := by
  rw [orderToSize_eq, orderToSize_eq, Nat.add_right_comm, pow_succ]
  omega

theorem pageSize_dvd_orderToSize (o : Nat) : pageSize ∣ orderToSize o := Dvd.intro_left _ rfl

theorem orderToSize_dvd (h : o ≤ o') : orderToSize o ∣ orderToSize o' := by
  rw [orderToSize_eq, orderToSize_eq]
  exact pow_dvd_pow 2 (by omega)

variable {n : Nat}

private theorem log2CeilLoop_eq (hn : n ≤ 2 ^ 63) :
    ∀ fuel order, order ≤ Nat.clog 2 n → Nat.clog 2 n < order + fuel →
      log2CeilLoop n fuel (2 ^ order) order = some (Nat.clog 2 n) := by
  have hclog : Nat.clog 2 n ≤ 63 := (Nat.clog_le_iff_le_pow (by omega)).mpr hn
  intro fuel
  induction fuel with
  | zero =>
    intro order h₁ h₂
    omega
  | succ fuel ih =>
    intro order h₁ h₂
    by_cases h : 2 ^ order < n
    · have hlt : order < Nat.clog 2 n := (Nat.lt_clog_iff_pow_lt (by omega)).mpr h
      have hval : 2 ^ order * 2 % wordModulus = 2 ^ (order + 1) := by
        rw [← pow_succ]
        exact Nat.mod_eq_of_lt (Nat.pow_lt_pow_right (by omega) (by omega))
      rw [log2CeilLoop, if_pos h, hval]
      exact ih (order + 1) hlt (by omega)
    have hle : Nat.clog 2 n ≤ order := (Nat.clog_le_iff_le_pow (by omega)).mpr (by omega)
    rw [log2CeilLoop, if_neg h, Nat.le_antisymm h₁ hle]

theorem log2Ceil_eq_clog (hn : n ≤ 2 ^ 63) : log2Ceil n = some (Nat.clog 2 n) := by
  have hclog : Nat.clog 2 n ≤ 63 := (Nat.clog_le_iff_le_pow (by omega)).mpr hn
  unfold log2Ceil
  by_cases h : n ≤ 1
  · rw [if_pos h, Nat.clog_of_right_le_one h]
  rw [if_neg h]
  exact log2CeilLoop_eq hn 65 0 (Nat.zero_le _) (by omega)

theorem log2CeilLoop_diverges (hn : 2 ^ 63 < n) :
    ∀ fuel val order, (val = 0 ∨ ∃ k ≤ 63, val = 2 ^ k) → log2CeilLoop n fuel val order = none := by
  intro fuel
  induction fuel with
  | zero =>
    intro val order _
    rfl
  | succ fuel ih =>
    intro val order hval
    have hlt : val < n := by
      rcases hval with rfl | ⟨k, hk, rfl⟩
      · omega
      · exact (Nat.pow_le_pow_right (by omega) hk).trans_lt hn
    rw [log2CeilLoop, if_pos hlt]
    apply ih
    rcases hval with rfl | ⟨k, hk, rfl⟩
    · simp
    rcases Nat.lt_or_eq_of_le hk with hk | rfl
    · refine .inr ⟨k + 1, hk, ?_⟩
      rw [← pow_succ]
      exact Nat.mod_eq_of_lt (Nat.pow_lt_pow_right (by omega) (by omega))
    · exact .inl (by decide)

theorem log2Ceil_eq_none (hn : 2 ^ 63 < n) : log2Ceil n = none := by
  unfold log2Ceil
  rw [if_neg (by omega)]
  exact log2CeilLoop_diverges hn 65 1 0 (.inr ⟨0, by omega, rfl⟩)

theorem log2Ceil_isSome_iff : (log2Ceil n).isSome ↔ n ≤ 2 ^ 63 := by
  by_cases h : n ≤ 2 ^ 63
  · rw [log2Ceil_eq_clog h]
    exact iff_of_true rfl h
  rw [log2Ceil_eq_none (Nat.lt_of_not_le h)]
  exact iff_of_false Bool.false_ne_true h

/-! ## Blocks -/

@[ext] structure Block where
  addr : Nat
  order : Nat
  deriving DecidableEq, Repr

namespace Block

def bytes (b : Block) : Set Nat :=
  Set.Ico b.addr (b.addr + orderToSize b.order)

def Aligned (b : Block) : Prop := orderToSize b.order ∣ b.addr

def buddy (b : Block) : Block := ⟨getBuddyAddr b.addr b.order, b.order⟩

def merged (b : Block) : Block :=
  ⟨if b.addr < b.buddy.addr then b.addr else b.buddy.addr, b.order + 1⟩

theorem mem_bytes {b : Block} {x : Nat} :
    x ∈ b.bytes ↔ b.addr ≤ x ∧ x < b.addr + orderToSize b.order := Iff.rfl

theorem addr_mem_bytes (b : Block) : b.addr ∈ b.bytes :=
  ⟨Nat.le_refl _, Nat.lt_add_of_pos_right (orderToSize_pos _)⟩

def toDyadic (b : Block) (h : b.Aligned) : DyadicBlock :=
  ⟨b.addr, b.order + pageShift, orderToSize_eq b.order ▸ h⟩

theorem cells_toDyadic (b : Block) (h : b.Aligned) : (b.toDyadic h).cells = b.bytes := by
  unfold cells bytes
  rw [orderToSize_eq]
  rfl

@[simp] theorem buddy_order (b : Block) : b.buddy.order = b.order := rfl

@[simp] theorem buddy_buddy (b : Block) : b.buddy.buddy = b := by
  apply Block.ext
  · change (b.addr ^^^ _) ^^^ _ = b.addr
    rw [buddy_order, Nat.xor_assoc, Nat.xor_self, Nat.xor_zero]
  · rfl

theorem buddy_addr (b : Block) (h : b.Aligned) : b.buddy.addr = (b.toDyadic h).buddy.base := by
  change b.addr ^^^ orderToSize b.order = b.addr ^^^ _
  rw [orderToSize_eq]
  rfl

theorem Aligned.buddy {b : Block} (h : b.Aligned) : b.buddy.Aligned := by
  unfold Aligned
  rw [b.buddy_addr h, buddy_order, orderToSize_eq]
  exact (b.toDyadic h).buddy.aligned

theorem toDyadic_buddy {b : Block} (h : b.Aligned) :
    b.buddy.toDyadic h.buddy = (b.toDyadic h).buddy :=
  ext (b.buddy_addr h) rfl

theorem Aligned.merged {b : Block} (h : b.Aligned) : b.merged.Aligned := by
  have hdvd := (b.toDyadic h).parent.aligned
  unfold Aligned Block.merged
  rw [orderToSize_eq, b.buddy_addr h, Nat.add_right_comm]
  exact hdvd

theorem toDyadic_merged {b : Block} (h : b.Aligned) :
    b.merged.toDyadic h.merged = (b.toDyadic h).parent := by
  apply DyadicBlock.ext
  · change (if b.addr < b.buddy.addr then b.addr else b.buddy.addr) = _
    rw [b.buddy_addr h]
    rfl
  · exact Nat.add_right_comm _ _ _

theorem disjoint_buddy {b : Block} (h : b.Aligned) : Disjoint b.bytes b.buddy.bytes := by
  have hdisj := (b.toDyadic h).disjoint_buddy
  rwa [← toDyadic_buddy h, cells_toDyadic, cells_toDyadic] at hdisj

theorem bytes_merged {b : Block} (h : b.Aligned) : b.merged.bytes = b.bytes ∪ b.buddy.bytes := by
  have hcells := (b.toDyadic h).cells_parent
  rwa [← toDyadic_merged h, ← toDyadic_buddy h, cells_toDyadic,
    cells_toDyadic, cells_toDyadic] at hcells

theorem eq_of_mem {b c : Block} {x : Nat} (hb : b.Aligned) (hc : c.Aligned) (hxb : x ∈ b.bytes)
    (hxc : x ∈ c.bytes) (horder : b.order = c.order) : b = c := by
  rw [← b.cells_toDyadic hb] at hxb
  rw [← c.cells_toDyadic hc] at hxc
  have heq := eq_of_cell hxb hxc (congrArg (fun o => o + pageShift) horder)
  exact Block.ext (congrArg base heq) horder

theorem bytes_subset_of_mem {b c : Block} {x : Nat} (hb : b.Aligned) (hc : c.Aligned)
    (hxb : x ∈ b.bytes) (hxc : x ∈ c.bytes) (horder : b.order ≤ c.order) : b.bytes ⊆ c.bytes := by
  rw [← b.cells_toDyadic hb] at hxb ⊢
  rw [← c.cells_toDyadic hc] at hxc ⊢
  exact DyadicBlock.cells_subset_of_cell hxb hxc (Nat.add_le_add_right horder _)

theorem order_le_of_subset {b c : Block} (hb : b.Aligned) (hc : c.Aligned)
    (h : b.bytes ⊆ c.bytes) : b.order ≤ c.order := by
  rw [← b.cells_toDyadic hb, ← c.cells_toDyadic hc] at h
  exact Nat.le_of_add_le_add_right (DyadicBlock.level_le_of_subset h)

theorem Aligned.page {b : Block} (h : b.Aligned) : pageSize ∣ b.addr :=
  (pageSize_dvd_orderToSize b.order).trans h

theorem page_mem_bytes {b : Block} {x : Nat} (h : b.Aligned) :
    x / pageSize * pageSize ∈ b.bytes ↔ x ∈ b.bytes := by
  obtain ⟨q, hq⟩ := h.page
  obtain ⟨r, hr⟩ := pageSize_dvd_orderToSize b.order
  rw [mem_bytes, mem_bytes, hq, hr]
  unfold pageSize
  omega

/-! ### Halves -/

theorem bytes_halves (a o : Nat) : (⟨a, o + 1⟩ : Block).bytes =
      (⟨a, o⟩ : Block).bytes ∪ (⟨a + orderToSize o, o⟩ : Block).bytes := by
  ext x
  rw [mem_union, mem_bytes, mem_bytes, mem_bytes]
  change (a ≤ x ∧ x < a + orderToSize (o + 1)) ↔ _
  rw [orderToSize_succ]
  change _ ↔ (a ≤ x ∧ x < a + orderToSize o) ∨
    (a + orderToSize o ≤ x ∧ x < a + orderToSize o + orderToSize o)
  omega

variable {a o : Nat}

section

variable (h : (⟨a, o + 1⟩ : Block).Aligned)
include h

theorem Aligned.lower : (⟨a, o⟩ : Block).Aligned := (orderToSize_dvd (Nat.le_succ o)).trans h

theorem Aligned.upper : (⟨a + orderToSize o, o⟩ : Block).Aligned :=
  (Nat.dvd_add_right h.lower).mpr (dvd_refl _)

theorem buddy_lower : (⟨a, o⟩ : Block).buddy = ⟨a + orderToSize o, o⟩ := by
  apply Block.ext
  · have hlevel : (toDyadic ⟨a, o + 1⟩ h).level = (o + pageShift) + 1 := Nat.add_right_comm _ _ _
    have hhalf := DyadicBlock.buddy_lower (toDyadic ⟨a, o + 1⟩ h) _ hlevel
    rw [buddy_addr _ h.lower, orderToSize_eq]
    exact congrArg base hhalf
  · rfl

end

theorem exists_superset {B : Set Block} (haligned : ∀ b ∈ B, b.Aligned)
    (hcoalesced : ∀ b ∈ B, b.order < maxOrder → b.buddy ∉ B) {x : Block} (hx : x.Aligned)
    (ho : x.order ≤ maxOrder) (hcover : ∀ y ∈ x.bytes, ∃ b ∈ B, y ∈ b.bytes) :
    ∃ b ∈ B, x.bytes ⊆ b.bytes := by
  let F : Set DyadicBlock := {d | ∃ b, ∃ hb : b ∈ B, d = b.toDyadic (haligned b hb)}
  have hF : DyadicBlock.Coalesced (maxOrder + pageShift) F := by
    rintro d ⟨b, hb, rfl⟩ hlevel ⟨c, hc, hcb⟩
    have hlt : b.order < maxOrder := Nat.lt_of_add_lt_add_right hlevel
    rw [← toDyadic_buddy] at hcb
    have heq : b.buddy = c := Block.ext (congrArg base hcb)
      (Nat.add_right_cancel (congrArg level hcb))
    exact hcoalesced b hb hlt (heq ▸ hc)
  have hlevel : ∀ d ∈ F, pageShift ≤ d.level := by
    rintro d ⟨b, hb, rfl⟩
    exact Nat.le_add_left _ _
  have hcells : ∀ y ∈ (x.toDyadic hx).cells, ∃ d ∈ F, y ∈ d.cells := by
    intro y hy
    rw [cells_toDyadic] at hy
    obtain ⟨b, hb, hmem⟩ := hcover y hy
    refine ⟨_, ⟨b, hb, rfl⟩, ?_⟩
    rwa [cells_toDyadic]
  obtain ⟨d, ⟨b, hb, rfl⟩, hsub⟩ := hF.exists_superset hlevel
    (x.toDyadic hx) (Nat.le_add_left _ _) (Nat.add_le_add_right ho _) hcells
  rw [cells_toDyadic, cells_toDyadic] at hsub
  exact ⟨b, hb, hsub⟩

end Block

/-! ## Tilings -/

/-- The blocks of `B` are blocks of the heap and make up `pub` exactly. -/
structure Tiling (B : Set Block) (lo hi : Nat) (pub : Set Nat) : Prop where
  order_le : ∀ b ∈ B, b.order ≤ maxOrder
  aligned : ∀ b ∈ B, b.Aligned
  inHeap : ∀ b ∈ B, b.bytes ⊆ Set.Ico lo hi
  disjoint : B.PairwiseDisjoint Block.bytes
  union : ⋃ b ∈ B, b.bytes = pub

namespace Tiling

variable {A A' B C : Set Block} {lo hi : Nat} {pub : Set Nat} {b c : Block}

theorem subset_pub (h : Tiling B lo hi pub) (hb : b ∈ B) : b.bytes ⊆ pub := by
  rw [← h.union]
  exact subset_biUnion_of_mem hb

theorem eq_of_mem (h : Tiling B lo hi pub) (hb : b ∈ B) (hc : c ∈ B)
    (hxb : x ∈ b.bytes) (hxc : x ∈ c.bytes) : b = c := by
  by_contra hne
  exact disjoint_left.mp (h.disjoint hb hc hne) hxb hxc

theorem exchange (h : Tiling (A ∪ C) lo hi pub) (hAC : Disjoint A C)
    (horder : ∀ b ∈ A', b.order ≤ maxOrder) (haligned : ∀ b ∈ A', b.Aligned)
    (hdisj : A'.PairwiseDisjoint Block.bytes) (hunion : ⋃ b ∈ A', b.bytes = ⋃ b ∈ A, b.bytes) :
    Tiling (A' ∪ C) lo hi pub where
  order_le := by
    rintro b (hb | hb)
    · exact horder b hb
    · exact h.order_le b (.inr hb)
  aligned := by
    rintro b (hb | hb)
    · exact haligned b hb
    · exact h.aligned b (.inr hb)
  inHeap := by
    rintro b (hb | hb)
    · intro x hx
      have hmem : x ∈ ⋃ b ∈ A, b.bytes := hunion ▸ mem_biUnion hb hx
      obtain ⟨a, ha, hxa⟩ := mem_iUnion₂.mp hmem
      exact h.inHeap a (.inl ha) hxa
    · exact h.inHeap b (.inr hb)
  disjoint := by
    -- a new block only shares bytes with the blocks it was exchanged for
    have hmixed : ∀ b ∈ A', ∀ c ∈ C, Disjoint b.bytes c.bytes := by
      intro b hb c hc
      refine disjoint_left.mpr fun x hx hxc => ?_
      have hmem : x ∈ ⋃ b ∈ A, b.bytes := hunion ▸ mem_biUnion hb hx
      obtain ⟨a, ha, hxa⟩ := mem_iUnion₂.mp hmem
      have hac : a = c := h.eq_of_mem (.inl ha) (.inr hc) hxa hxc
      exact disjoint_left.mp hAC ha (hac ▸ hc)
    rintro b (hb | hb) c (hc | hc) hne
    · exact hdisj hb hc hne
    · exact hmixed b hb c hc
    · exact (hmixed c hc b hb).symm
    · exact h.disjoint (.inr hb) (.inr hc) hne
  union := by
    rw [biUnion_union, hunion, ← biUnion_union]
    exact h.union

theorem split {a o : Nat} (h : Tiling (insert ⟨a, o + 1⟩ C) lo hi pub)
    (hnew : (⟨a, o + 1⟩ : Block) ∉ C) :
    Tiling (insert ⟨a, o⟩ (insert ⟨a + orderToSize o, o⟩ C)) lo hi pub := by
  have hmem : (⟨a, o + 1⟩ : Block) ∈ insert ⟨a, o + 1⟩ C := mem_insert _ _
  have haligned := h.aligned _ hmem
  have horder : o + 1 ≤ maxOrder := h.order_le _ hmem
  rw [insert_eq] at h
  have hset : insert (⟨a, o⟩ : Block) (insert ⟨a + orderToSize o, o⟩ C) =
      {⟨a, o⟩, ⟨a + orderToSize o, o⟩} ∪ C := by
    rw [insert_union, singleton_union]
  rw [hset]
  refine h.exchange (disjoint_singleton_left.mpr hnew) ?_ ?_ ?_ ?_
  · rintro b (rfl | rfl)
    · exact (Nat.le_succ o).trans horder
    · exact (Nat.le_succ o).trans horder
  · rintro b (rfl | rfl)
    · exact haligned.lower
    · exact haligned.upper
  · have hhalves := Block.disjoint_buddy haligned.lower
    rw [Block.buddy_lower haligned] at hhalves
    rintro b (rfl | rfl) c (rfl | rfl) hne
    · exact absurd rfl hne
    · exact hhalves
    · exact hhalves.symm
    · exact absurd rfl hne
  · rw [biUnion_pair, biUnion_singleton, Block.bytes_halves]

theorem merge (h : Tiling (insert b (insert b.buddy C)) lo hi pub)
    (hb : b ∉ C) (hbuddy : b.buddy ∉ C) (horder : b.order < maxOrder) :
    Tiling (insert b.merged C) lo hi pub := by
  have haligned := h.aligned b (mem_insert _ _)
  have hset : insert b (insert b.buddy C) = {b, b.buddy} ∪ C := by
    rw [insert_union, singleton_union]
  rw [hset] at h
  rw [insert_eq]
  refine h.exchange ?_ ?_ ?_ (pairwiseDisjoint_singleton _ _) ?_
  · refine disjoint_left.mpr ?_
    rintro c (rfl | rfl)
    · exact hb
    · exact hbuddy
  · rintro c rfl
    exact horder
  · rintro c rfl
    exact haligned.merged
  · rw [biUnion_pair, biUnion_singleton, Block.bytes_merged haligned]

end Tiling

end SlmOs.Pmm
