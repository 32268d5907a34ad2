import Mathlib

/-!
# Dyadic blocks of natural numbers

A dyadic block is an interval `[base, base + 2 ^ level)` whose base is a
multiple of its length.  Two blocks that share a cell are nested, the blocks of
one level pair up into buddies, and two buddies make one block of the next
level.  The covering theorem at the end is the reason a buddy system may merge
by looking at cells only: in a family without two buddies, a block whose cells
all belong to the family lies inside a single member.
-/

namespace SlmOs.Foundation

open Nat

@[ext] structure DyadicBlock where
  base : Nat
  level : Nat
  aligned : 2 ^ level ∣ base

namespace DyadicBlock

def cells (d : DyadicBlock) : Set Nat := Set.Ico d.base (d.base + 2 ^ d.level)

variable {d : DyadicBlock}

theorem mem_cells : x ∈ d.cells ↔ d.base ≤ x ∧ x < d.base + 2 ^ d.level := Iff.rfl

theorem base_mem_cells (d : DyadicBlock) : d.base ∈ d.cells :=
  ⟨Nat.le_refl _, Nat.lt_add_of_pos_right (Nat.two_pow_pos _)⟩

theorem mem_cells_iff_div : x ∈ d.cells ↔ x / 2 ^ d.level = d.base / 2 ^ d.level := by
  obtain ⟨q, hq⟩ := d.aligned
  have hpos : 0 < 2 ^ d.level := Nat.two_pow_pos _
  rw [mem_cells, hq, Nat.mul_div_cancel_left _ hpos]
  rw [Nat.div_eq_iff hpos]
  have hcomm : q * 2 ^ d.level = 2 ^ d.level * q := Nat.mul_comm _ _
  omega

theorem eq_of_cell (hd : x ∈ d.cells) (he : x ∈ e.cells) (hlevel : d.level = e.level) : d = e := by
  apply DyadicBlock.ext _ hlevel
  have hx := (mem_cells_iff_div.mp hd).symm.trans (hlevel ▸ mem_cells_iff_div.mp he)
  rw [← Nat.div_mul_cancel d.aligned, hx, hlevel, Nat.div_mul_cancel e.aligned]

theorem cells_subset_of_cell {x : Nat} {e : DyadicBlock} (hd : x ∈ d.cells) (he : x ∈ e.cells)
    (hlevel : d.level ≤ e.level) : d.cells ⊆ e.cells := by
  intro y hy
  obtain ⟨k, hk⟩ := Nat.exists_eq_add_of_le hlevel
  have hquot : y / 2 ^ d.level = x / 2 ^ d.level :=
    (mem_cells_iff_div.mp hy).trans (mem_cells_iff_div.mp hd).symm
  apply mem_cells_iff_div.mpr
  rw [← mem_cells_iff_div.mp he, hk, pow_add, ← Nat.div_div_eq_div_mul,
    ← Nat.div_div_eq_div_mul, hquot]

theorem level_le_of_subset {e : DyadicBlock} (h : d.cells ⊆ e.cells) : d.level ≤ e.level := by
  have hlast : d.base + 2 ^ d.level - 1 ∈ d.cells := by
    have := Nat.two_pow_pos d.level
    rw [mem_cells]
    omega
  have hfirst := mem_cells.mp (h d.base_mem_cells)
  have hend := mem_cells.mp (h hlast)
  have hpow : 2 ^ d.level ≤ 2 ^ e.level := by omega
  exact (Nat.pow_le_pow_iff_right (by omega)).mp hpow

/-! ## Buddies -/

theorem xor_level (q k : Nat) : (2 ^ k * q) ^^^ 2 ^ k = 2 ^ k * (q ^^^ 1) := by
  have := shiftLeft_xor_distrib (i := k) (a := q) (b := 1)
  simpa [shiftLeft_eq, mul_comm] using this.symm

def buddy (d : DyadicBlock) : DyadicBlock where
  base := d.base ^^^ 2 ^ d.level
  level := d.level
  aligned := by
    obtain ⟨q, hq⟩ := d.aligned
    rw [hq, xor_level]
    exact dvd_mul_right _ _

@[simp] theorem buddy_level (d : DyadicBlock) : d.buddy.level = d.level := rfl

theorem buddy_cases (d : DyadicBlock) :
    (2 ^ (d.level + 1) ∣ d.base ∧ d.buddy.base = d.base + 2 ^ d.level) ∨
      (2 ^ (d.level + 1) ∣ d.buddy.base ∧ d.base = d.buddy.base + 2 ^ d.level) := by
  obtain ⟨q, hq⟩ := d.aligned
  have hbase : d.buddy.base = 2 ^ d.level * (q ^^^ 1) := by
    change d.base ^^^ 2 ^ d.level = _
    rw [← xor_level, ← hq]
  rcases even_or_odd q with heven | hodd
  · left
    rw [xor_one_of_even heven] at hbase
    obtain ⟨r, rfl⟩ := heven
    refine ⟨⟨r, ?_⟩, ?_⟩
    · rw [hq, pow_succ]
      ring
    rw [hbase, hq]
    ring
  right
  rw [xor_one_of_odd hodd] at hbase
  obtain ⟨r, rfl⟩ := hodd
  refine ⟨⟨r, ?_⟩, ?_⟩
  · rw [hbase, pow_succ, Nat.add_sub_cancel]
    ring
  rw [hbase, hq, Nat.add_sub_cancel]
  ring

theorem buddy_ne (d : DyadicBlock) : d.buddy ≠ d := by
  intro h
  have hbase : d.buddy.base = d.base := by rw [h]
  have hpos := Nat.two_pow_pos d.level
  rcases d.buddy_cases with ⟨-, hb⟩ | ⟨-, hb⟩ <;> omega

theorem disjoint_buddy (d : DyadicBlock) : Disjoint d.cells d.buddy.cells := by
  rw [Set.disjoint_left]
  intro x hx hy
  exact d.buddy_ne (eq_of_cell hy hx rfl)

def parent (d : DyadicBlock) : DyadicBlock where
  base := if d.base < d.buddy.base then d.base else d.buddy.base
  level := d.level + 1
  aligned := by
    have hpos := Nat.two_pow_pos d.level
    rcases d.buddy_cases with ⟨hdvd, hb⟩ | ⟨hdvd, hb⟩
    · rw [if_pos (by omega)]
      exact hdvd
    rw [if_neg (by omega)]
    exact hdvd

@[simp] theorem parent_level (d : DyadicBlock) : d.parent.level = d.level + 1 := rfl

theorem cells_parent (d : DyadicBlock) : d.parent.cells = d.cells ∪ d.buddy.cells := by
  have hpos := Nat.two_pow_pos d.level
  have hpow : 2 ^ (d.level + 1) = 2 ^ d.level + 2 ^ d.level := by
    rw [pow_succ]
    omega
  have hbase : d.parent.base =
      if d.base < d.buddy.base then d.base else d.buddy.base := rfl
  ext x
  rw [Set.mem_union, mem_cells, mem_cells, mem_cells, parent_level, buddy_level, hpow, hbase]
  rcases d.buddy_cases with ⟨-, hb⟩ | ⟨-, hb⟩
  · rw [if_pos (by omega)]
    omega
  rw [if_neg (by omega)]
  omega

/-! ## Halves -/

def lower (d : DyadicBlock) (k : Nat) (h : d.level = k + 1) : DyadicBlock where
  base := d.base
  level := k
  aligned := (pow_dvd_pow 2 (by omega)).trans d.aligned

def upper (d : DyadicBlock) (k : Nat) (h : d.level = k + 1) : DyadicBlock where
  base := d.base + 2 ^ k
  level := k
  aligned := (Nat.dvd_add_right (d.lower k h).aligned).mpr (dvd_refl _)

theorem buddy_lower (d : DyadicBlock) (k : Nat) (h : d.level = k + 1) :
    (d.lower k h).buddy = d.upper k h := by
  apply DyadicBlock.ext
  · have haligned : 2 ^ (k + 1) ∣ d.base := h ▸ d.aligned
    rcases (d.lower k h).buddy_cases with ⟨-, hb⟩ | ⟨hdvd, hb⟩
    · exact hb
    -- the lower half cannot sit above its buddy: the gap is half a block
    exfalso
    change 2 ^ (k + 1) ∣ _ at hdvd
    have hk : 2 ^ (k + 1) ∣ (d.lower k h).buddy.base + 2 ^ k := by
      rw [show (d.lower k h).buddy.base + 2 ^ k = d.base from hb.symm]
      exact haligned
    have := Nat.le_of_dvd (Nat.two_pow_pos k) ((Nat.dvd_add_right hdvd).mp hk)
    omega
  · rfl

theorem cells_halves (d : DyadicBlock) (k : Nat) (h : d.level = k + 1) :
    d.cells = (d.lower k h).cells ∪ (d.upper k h).cells := by
  have hpow : 2 ^ d.level = 2 ^ k + 2 ^ k := by
    rw [h, pow_succ]
    omega
  ext x
  rw [Set.mem_union, mem_cells, mem_cells, mem_cells, hpow]
  change _ ↔ (d.base ≤ x ∧ x < d.base + 2 ^ k) ∨ (d.base + 2 ^ k ≤ x ∧ x < d.base + 2 ^ k + 2 ^ k)
  omega

/-! ## Families without two buddies -/

/-- No two buddies below level `top` are both in the family. -/
def Coalesced (top : Nat) (F : Set DyadicBlock) : Prop :=
  ∀ d ∈ F, d.level < top → d.buddy ∉ F

/--
In a coalesced family whose blocks have at least level `m`, every block up to
level `top` that the family covers is contained in one member.
-/
theorem Coalesced.exists_superset (hF : Coalesced top F) (hm : ∀ f ∈ F, m ≤ f.level)
    (d : DyadicBlock) (hd : m ≤ d.level) (htop : d.level ≤ top)
    (hcover : ∀ x ∈ d.cells, ∃ f ∈ F, x ∈ f.cells) : ∃ f ∈ F, d.cells ⊆ f.cells := by
  obtain ⟨n, hn⟩ := Nat.exists_eq_add_of_le hd
  induction n generalizing d with
  | zero =>
    obtain ⟨f, hf, hbase⟩ := hcover d.base d.base_mem_cells
    refine ⟨f, hf, cells_subset_of_cell d.base_mem_cells hbase ?_⟩
    have := hm f hf
    omega
  | succ n ih =>
    have hk : d.level = (m + n) + 1 := by omega
    have hhalves := d.cells_halves (m + n) hk
    -- both halves lie in members by induction
    obtain ⟨f, hf, hlower⟩ := ih (d.lower (m + n) hk)
      (le_add_right _ _) (by change m + n ≤ top; omega)
      (fun x hx => hcover x (by rw [hhalves]; exact .inl hx)) rfl
    obtain ⟨g, hg, hupper⟩ := ih (d.upper (m + n) hk)
      (le_add_right _ _) (by change m + n ≤ top; omega)
      (fun x hx => hcover x (by rw [hhalves]; exact .inr hx)) rfl
    have hlowerMem := (d.lower (m + n) hk).base_mem_cells
    have hupperMem := (d.upper (m + n) hk).base_mem_cells
    by_cases hflevel : d.level ≤ f.level
    · exact ⟨f, hf, cells_subset_of_cell
        (by rw [hhalves]; exact .inl hlowerMem) (hlower hlowerMem) hflevel⟩
    by_cases hglevel : d.level ≤ g.level
    · exact ⟨g, hg, cells_subset_of_cell
        (by rw [hhalves]; exact .inr hupperMem) (hupper hupperMem) hglevel⟩
    -- otherwise both halves are members, and they are buddies
    have hfeq : d.lower (m + n) hk = f := by
      have := level_le_of_subset hlower
      exact eq_of_cell hlowerMem (hlower hlowerMem)
        (by change m + n = f.level; change m + n ≤ f.level at this; omega)
    have hgeq : d.upper (m + n) hk = g := by
      have := level_le_of_subset hupper
      exact eq_of_cell hupperMem (hupper hupperMem)
        (by change m + n = g.level; change m + n ≤ g.level at this; omega)
    refine absurd hg ?_
    rw [← hgeq, ← buddy_lower, hfeq]
    exact hF f hf (by omega)

end DyadicBlock

end SlmOs.Foundation
