import Mathlib.Data.List.Range
import Mathlib.Data.Nat.ModEq
import Mathlib.Logic.Function.Basic

/-!
# Ring buffers

A ring of `cap` cells with a read index `tail` and a number `count` of occupied
cells.  `ringList` is its content, oldest first.  Writing the cell `count` places
after the tail appends to that list, and advancing the tail drops its first
element.  The cells are given by a function, so that they may be anything that
can be addressed by an index.

An `IndexRing` keeps a write index instead of the number of occupied cells.  One
cell stays free, so that equal indices mean an empty ring.
-/

namespace SlmOs.Foundation

open Function List Nat

universe u

variable {α : Type u}

def ringList (cell : Nat → α) (cap tail count : Nat) : List α :=
  (List.range count).map fun i => cell ((tail + i) % cap)

@[simp] theorem length_ringList (cell : Nat → α) (cap tail count : Nat) :
    (ringList cell cap tail count).length = count := by
  simp [ringList]

theorem ringList_congr (cell cell' : Nat → α) (hcap : 0 < cap) (h : ∀ j < cap, cell' j = cell j)
    (tail count : Nat) : ringList cell' cap tail count = ringList cell cap tail count := by
  exact map_congr_left fun i _ => h _ (mod_lt _ hcap)

variable {tail : Nat}

theorem ring_index_ne (hij : i < j) (hj : j < cap) : (tail + i) % cap ≠ (tail + j) % cap := by
  intro h
  have hmod : i ≡ j [MOD cap] := Nat.ModEq.add_left_cancel' tail h
  have hlt : i < cap := by omega
  have : i = j := Nat.ModEq.eq_of_lt_of_lt hmod hlt hj
  omega

theorem ringList_push (cell cell' : Nat → α) {cap count : Nat} (hcount : count < cap)
    (h : ∀ j < cap, j ≠ (tail + count) % cap → cell' j = cell j) :
    ringList cell' cap tail (count + 1) =
      ringList cell cap tail count ++ [cell' ((tail + count) % cap)] := by
  unfold ringList
  rw [range_succ, map_append, map_singleton]
  congr 1
  refine map_congr_left fun i hi => ?_
  have hlt : i < count := mem_range.mp hi
  exact h _ (mod_lt _ (by omega)) (ring_index_ne hlt hcount)

section

variable (cell : Nat → α)

theorem ringList_pop (cap tail count : Nat) : ringList cell cap tail (count + 1) =
      cell (tail % cap) :: ringList cell cap ((tail + 1) % cap) count := by
  unfold ringList
  rw [range_succ_eq_map, map_cons, map_map, add_zero]
  congr 1
  refine map_congr_left fun i _ => ?_
  simp only [Function.comp_apply, succ_eq_add_one]
  rw [mod_add_mod, add_assoc, add_comm 1 i]

theorem ringList_add (cap tail n m : Nat) : ringList cell cap tail (n + m) =
      ringList cell cap tail n ++ ringList cell cap ((tail + n) % cap) m := by
  unfold ringList
  rw [range_add, map_append, map_map]
  congr 1
  refine map_congr_left fun i _ => ?_
  simp only [Function.comp_apply]
  rw [mod_add_mod, add_assoc]

theorem ringList_contiguous (h : tail + n ≤ cap) :
    ringList cell cap tail n = (List.range n).map fun i => cell (tail + i) := by
  refine map_congr_left fun i hi => ?_
  have hlt : i < n := mem_range.mp hi
  rw [mod_eq_of_lt (by omega)]

theorem ringList_mod (cap tail count : Nat) :
    ringList cell cap (tail % cap) count = ringList cell cap tail count := by
  refine map_congr_left fun i _ => ?_
  rw [mod_add_mod]

end

theorem ringList_shift (cell cell' : Nat → α) {cap : Nat} (hcap : 0 < cap)
    (h : ∀ j < cap, j ≠ tail % cap → cell' j = cell j) :
    ringList cell' cap (tail + 1) cap =
      (ringList cell cap tail cap).tail ++ [cell' (tail % cap)] := by
  obtain ⟨n, rfl⟩ := exists_eq_succ_of_ne_zero hcap.ne'
  have hpos : (tail + 1 + n) % n.succ = tail % n.succ := by
    rw [add_right_comm, add_assoc, add_mod_right]
  have hpush := ringList_push cell cell' (lt_succ_self n) (fun j hj hne => h j hj (hpos ▸ hne))
  rw [hpush, hpos, ringList_pop, tail_cons, ringList_mod]

theorem ringList_update_of_ne (cell : Nat → α) {cap count j : Nat} (v : α)
    (h : ∀ i < count, (tail + i) % cap ≠ j) :
    ringList (update cell j v) cap tail count = ringList cell cap tail count := by
  refine map_congr_left fun i hi => ?_
  rw [update_of_ne (h i (mem_range.mp hi))]

theorem ringList_update (cell : Nat → α) {cap count i : Nat} (v : α)
    (hcount : count ≤ cap) (hi : i < count) :
    ringList (update cell ((tail + i) % cap) v) cap tail count =
      (ringList cell cap tail count).set i v := by
  refine ext_getElem (by simp) fun j hj _ => ?_
  have hjc : j < count := by simpa using hj
  rw [getElem_set]
  by_cases hij : i = j
  · subst hij
    simp [ringList]
  have hne : (tail + j) % cap ≠ (tail + i) % cap := by
    rcases lt_or_gt_of_ne hij with hlt | hgt
    · exact (ring_index_ne hlt (by omega)).symm
    · exact ring_index_ne hgt (by omega)
  simp [ringList, hij, hne]

structure IndexRing (α : Type u) (cap : Nat) where
  cell : Nat → α
  head : Nat
  tail : Nat
  head_lt : head < cap
  tail_lt : tail < cap

namespace IndexRing

variable {cap : Nat}

def used (r : IndexRing α cap) : Nat := (r.head + cap - r.tail) % cap

def free (r : IndexRing α cap) : Nat := cap - 1 - r.used

def contents (r : IndexRing α cap) : List α := ringList r.cell cap r.tail r.used

def push (r : IndexRing α cap) (a : α) : IndexRing α cap where
  cell := update r.cell r.head a
  head := (r.head + 1) % cap
  tail := r.tail
  head_lt := mod_lt _ (zero_lt_of_lt r.head_lt)
  tail_lt := r.tail_lt

def advance (r : IndexRing α cap) (n : Nat) : IndexRing α cap where
  cell := r.cell
  head := r.head
  tail := (r.tail + n) % cap
  head_lt := r.head_lt
  tail_lt := mod_lt _ (zero_lt_of_lt r.tail_lt)

section

variable (r : IndexRing α cap)

@[simp] theorem length_contents : r.contents.length = r.used := by
  simp [contents]

theorem used_lt : r.used < cap := mod_lt _ (zero_lt_of_lt r.head_lt)

theorem used_eq : r.used = if r.tail ≤ r.head then r.head - r.tail else r.head + cap - r.tail := by
  have hhead := r.head_lt
  unfold used
  split
  · rw [show r.head + cap - r.tail = r.head - r.tail + cap by omega, add_mod_right]
    apply mod_eq_of_lt
    omega
  apply mod_eq_of_lt
  omega

theorem head_eq : r.head = (r.tail + r.used) % cap := by
  have hhead := r.head_lt
  have htail := r.tail_lt
  rw [used_eq]
  split
  · rw [show r.tail + (r.head - r.tail) = r.head by omega, mod_eq_of_lt hhead]
  rw [show r.tail + (r.head + cap - r.tail) = r.head + cap by omega, add_mod_right,
    mod_eq_of_lt hhead]

theorem head_eq_tail_iff : r.head = r.tail ↔ r.contents = [] := by
  have htail := r.tail_lt
  rw [← length_eq_zero_iff, length_contents, used_eq]
  split <;> omega

end

variable {r : IndexRing α cap} {n : Nat}

theorem used_of_head (hn : n < cap) (h : r.head = (r.tail + n) % cap) : r.used = n := by
  have heq : r.tail + r.used ≡ r.tail + n [MOD cap] := by
    rw [Nat.ModEq, ← r.head_eq, h]
  exact Nat.ModEq.eq_of_lt_of_lt (Nat.ModEq.add_left_cancel' _ heq) r.used_lt hn

theorem used_push (a : α) (h : 0 < r.free) : (r.push a).used = r.used + 1 := by
  apply used_of_head
  · unfold free at h
    omega
  change (r.head + 1) % cap = (r.tail + (r.used + 1)) % cap
  rw [r.head_eq, mod_add_mod, add_assoc]

theorem free_push (a : α) (h : 0 < r.free) : (r.push a).free = r.free - 1 := by
  unfold free
  rw [used_push a h]
  omega

theorem contents_push (a : α) (h : 0 < r.free) : (r.push a).contents = r.contents ++ [a] := by
  have hused : r.used < cap := r.used_lt
  unfold contents
  rw [used_push a h]
  change ringList (update r.cell r.head a) cap r.tail (r.used + 1) = _
  rw [ringList_push r.cell _ hused]
  · rw [← r.head_eq, update_self]
  intro j _ hj
  rw [← r.head_eq] at hj
  exact update_of_ne hj _ _

theorem contents_pushAll (as : List α) (h : as.length ≤ r.free) :
    (as.foldl push r).contents = r.contents ++ as ∧
      (as.foldl push r).free = r.free - as.length := by
  induction as generalizing r with
  | nil => simp
  | cons a as ih =>
    rw [length_cons] at h
    have hpos : 0 < r.free := by omega
    obtain ⟨hcontents, hfree⟩ := ih (r := r.push a) (by rw [free_push a hpos]; omega)
    rw [foldl_cons, hcontents, hfree, contents_push a hpos, free_push a hpos,
      length_cons, append_assoc]
    exact ⟨rfl, by omega⟩

theorem used_advance (h : n ≤ r.used) : (r.advance n).used = r.used - n := by
  have hused := r.used_lt
  apply used_of_head
  · omega
  change r.head = ((r.tail + n) % cap + (r.used - n)) % cap
  rw [mod_add_mod, r.head_eq]
  congr 1
  omega

theorem free_le_advance (h : n ≤ r.used) : r.free ≤ (r.advance n).free := by
  unfold free
  rw [used_advance h]
  omega

theorem contents_advance (h : n ≤ r.used) :
    r.contents = ringList r.cell cap r.tail n ++ (r.advance n).contents := by
  unfold contents
  rw [used_advance h]
  change _ = _ ++ ringList r.cell cap ((r.tail + n) % cap) (r.used - n)
  rw [← ringList_add]
  congr 1
  omega

-- from here on a ring is known by its contents
attribute [irreducible] used push advance

end IndexRing

end SlmOs.Foundation
