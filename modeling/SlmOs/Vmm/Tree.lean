import SlmOs.Foundation.Transition
import SlmOs.Vmm.PageTable

/-!
# Who owns which page

The pages of an address space sit in places: the L1 table, the L2 and L3 tables
below it and the leaves that are flagged as owned.
-/

namespace SlmOs.Vmm

open Foundation List Machine Vmm.Pmm Pmm

/-! ## Descriptors -/

theorem attributes_and (flags : Flags) (h : w ∈ [pteAddrMask, pteTypeMask, pteSwPmmOwned, pteAf]) :
    memoryBits flags &&& w = 0 ∧ accessBits flags &&& w = 0 ∧
      executeBits flags &&& w = 0 ∧ globalBit flags &&& w = 0 := by
  simp only [mem_cons, not_mem_nil, or_false] at h
  refine ⟨?_, ?_, ?_, ?_⟩
  · unfold memoryBits
    rcases h with rfl | rfl | rfl | rfl <;> split_ifs <;> rfl
  · unfold accessBits
    rcases h with rfl | rfl | rfl | rfl <;> split_ifs <;> rfl
  · unfold executeBits
    rcases h with rfl | rfl | rfl | rfl <;> split_ifs <;> rfl
  unfold globalBit
  rcases h with rfl | rfl | rfl | rfl <;> split_ifs <;> rfl

theorem makePageDesc_and (pa : Word) (flags : Flags)
    (h : w ∈ [pteAddrMask, pteTypeMask, pteSwPmmOwned, pteAf]) :
    makePageDesc pa flags &&& w =
      pteTypePage &&& w ||| pa &&& (pteAddrMask &&& w) ||| pteAf &&& w |||
        ownedBit flags &&& w := by
  obtain ⟨h₁, h₂, h₃, h₄⟩ := attributes_and flags h
  simp [makePageDesc, BitVec.and_or_distrib_right, BitVec.and_assoc, h₁, h₂, h₃, h₄]

theorem ownedBit_and (flags : Flags) (h : w ∈ [pteAddrMask, pteTypeMask, pteAf]) :
    ownedBit flags &&& w = 0 := by
  simp only [mem_cons, not_mem_nil, or_false] at h
  unfold ownedBit
  rcases h with rfl | rfl | rfl <;> split_ifs <;> rfl

@[simp] theorem pteType_makePageDesc (pa : Word) (flags : Flags) :
    pteType (makePageDesc pa flags) = pteTypePage := by
  have hmask : pteAddrMask &&& pteTypeMask = 0 := rfl
  rw [pteType, makePageDesc_and pa flags (by simp), ownedBit_and flags (by simp), hmask]
  simp [pteTypePage, pteTypeMask, pteAf]

@[simp] theorem pteAddr_makePageDesc (pa : Word) (flags : Flags) :
    pteAddr (makePageDesc pa flags) = pa &&& pteAddrMask := by
  rw [pteAddr, makePageDesc_and pa flags (by simp), ownedBit_and flags (by simp), BitVec.and_self]
  have htype : pteTypePage &&& pteAddrMask = 0 := rfl
  have haf : pteAf &&& pteAddrMask = 0 := rfl
  simp [htype, haf]

@[simp] theorem pteOwned_makePageDesc (pa : Word) (flags : Flags) :
    pteOwned (makePageDesc pa flags) = hasFlag flags vmmFlagPmmOwned := by
  have hrest : pteTypePage &&& pteSwPmmOwned = 0 ∧
      pteAddrMask &&& pteSwPmmOwned = 0 ∧ pteAf &&& pteSwPmmOwned = 0 :=
    ⟨rfl, rfl, rfl⟩
  rw [pteOwned, makePageDesc_and pa flags (by simp), hrest.1, hrest.2.1, hrest.2.2, ownedBit]
  cases hasFlag flags vmmFlagPmmOwned with
  | false => simp
  | true => simp [pteSwPmmOwned]

def Accessed (e : Word) : Prop := e &&& pteAf = pteAf

theorem accessed_makePageDesc (pa : Word) (flags : Flags) : Accessed (makePageDesc pa flags) := by
  have hrest : pteTypePage &&& pteAf = 0 ∧ pteAddrMask &&& pteAf = 0 := ⟨rfl, rfl⟩
  rw [Accessed, makePageDesc_and pa flags (by simp), ownedBit_and flags (by simp), hrest.1, hrest.2]
  simp

theorem Accessed.ne_zero (h : Accessed e) : e ≠ 0 := by
  rintro rfl
  simp [Accessed, pteAf] at h

@[simp] theorem pteType_makeTableDesc (p : Word) : pteType (makeTableDesc p) = pteTypeTable := by
  have hmask : pteAddrMask &&& pteTypeMask = 0 := rfl
  simp only [pteType, makeTableDesc, BitVec.and_or_distrib_right, BitVec.and_assoc, hmask]
  simp [pteTypeTable, pteTypeMask]

@[simp] theorem pteAddr_makeTableDesc (p : Word) :
    pteAddr (makeTableDesc p) = p &&& pteAddrMask := by
  have hmask : pteTypeTable &&& pteAddrMask = 0 := rfl
  simp only [pteAddr, makeTableDesc, BitVec.and_or_distrib_right, BitVec.and_assoc, hmask]
  simp

/-! Making an entry invalid keeps everything but its type. -/

theorem invalidated_and (e w : Word) (h : ~~~pteTypeMask &&& w = w) :
    e &&& ~~~pteTypeMask &&& w = e &&& w := by
  rw [BitVec.and_assoc, h]

@[simp] theorem pteType_invalidated (e : Word) :
    pteType (e &&& ~~~pteTypeMask) = pteTypeInvalid := by
  have hmask : ~~~pteTypeMask &&& pteTypeMask = 0 := rfl
  simp [pteType, BitVec.and_assoc, hmask, pteTypeInvalid]

@[simp] theorem pteAddr_invalidated (e : Word) : pteAddr (e &&& ~~~pteTypeMask) = pteAddr e :=
  invalidated_and e _ rfl

@[simp] theorem pteOwned_invalidated (e : Word) : pteOwned (e &&& ~~~pteTypeMask) = pteOwned e := by
  rw [pteOwned, invalidated_and e _ rfl, pteOwned]

theorem Accessed.invalidated (h : Accessed e) : Accessed (e &&& ~~~pteTypeMask) := by
  rw [Accessed, invalidated_and e _ rfl]
  exact h

@[simp] theorem pteType_zero : pteType 0#64 = pteTypeInvalid := rfl

@[simp] theorem pteOwned_zero : pteOwned 0#64 = false := rfl

theorem pteTypeTable_ne_invalid : pteTypeTable ≠ pteTypeInvalid := by decide

theorem pteTypePage_ne_invalid : pteTypePage ≠ pteTypeInvalid := by decide

/-! ## Places -/

inductive Place where
  | l1
  | l2 (i : Nat)
  | l3 (i j : Nat)
  | leaf (i j k : Nat)
  deriving DecidableEq, Repr

def tableAt (m : Machine) (page : Word) (index : Nat) : Option Word :=
  if pteType (m.mem page index) = pteTypeTable then
    some (pteAddr (m.mem page index))
  else none

def l2At (m : Machine) (l1 : Word) (i : Nat) : Option Word :=
  if userL1First ≤ i ∧ i < userL1Limit then tableAt m l1 i else none

def l3At (m : Machine) (l1 : Word) (i j : Nat) : Option Word :=
  if j < entriesPerTable then
    (l2At m l1 i).bind fun l2 => tableAt m l2 j
  else none

def entryAt (m : Machine) (l1 : Word) (i j k : Nat) : Word :=
  match l3At m l1 i j with
  | some l3 => if k < entriesPerTable then m.mem l3 k else 0
  | none => 0

def pageAt (m : Machine) (l1 : Word) : Place → Option Word
  | .l1 => some l1
  | .l2 i => l2At m l1 i
  | .l3 i j => l3At m l1 i j
  | .leaf i j k =>
    if pteOwned (entryAt m l1 i j k) then some (pteAddr (entryAt m l1 i j k))
    else none

def At (m : Machine) (l1 : Word) (r : Place) (p : Word) : Prop :=
  pageAt m l1 r = some p

/-! ### What memory they depend on -/

@[simp] theorem store_mem_self (m : Machine) (q : Word) (x : Nat) (v : Word) :
    (m.store q x v).mem q x = v := by
  simp [store]

theorem store_mem_of_ne (m : Machine) (v : Word)
    (h : p ≠ q ∨ y ≠ x) : (m.store q x v).mem p y = m.mem p y := by
  by_cases hp : p = q
  · subst hp
    have hy : y ≠ x := by simpa using h
    simp [store, hy]
  · simp [store, hp]

theorem fill_mem_of_ne (m : Machine) (data : Nat → Word)
    (h : p ≠ q) : (m.fill q data).mem p = m.mem p := by
  simp [fill, h]

theorem l2At_congr (h : m'.mem l1 i = m.mem l1 i) : l2At m' l1 i = l2At m l1 i := by
  simp [l2At, tableAt, h]

theorem l3At_congr (hl2 : l2At m' l1 i = l2At m l1 i)
    (h : ∀ q, l2At m l1 i = some q → m'.mem q j = m.mem q j) : l3At m' l1 i j = l3At m l1 i j := by
  unfold l3At
  rw [hl2]
  cases hq : l2At m l1 i with
  | none => simp
  | some q => simp [tableAt, h q hq]

theorem entryAt_congr (hl3 : l3At m' l1 i j = l3At m l1 i j)
    (h : ∀ q, l3At m l1 i j = some q → m'.mem q k = m.mem q k) :
    entryAt m' l1 i j k = entryAt m l1 i j k := by
  unfold entryAt
  rw [hl3]
  cases hq : l3At m l1 i j with
  | none => simp
  | some q => simp [h q hq]

theorem entryAt_of_none (h : l3At m l1 i j = none) : entryAt m l1 i j k = 0#64 := by
  simp [entryAt, h]

theorem l3At_of_none (h : l2At m l1 i = none) : l3At m l1 i j = none := by
  simp [l3At, h]

theorem pageAt_congr (hl2 : ∀ i, l2At m' l1 i = l2At m l1 i)
    (hl3 : ∀ i j, l3At m' l1 i j = l3At m l1 i j)
    (hentry : ∀ i j k, entryAt m' l1 i j k = entryAt m l1 i j k) : pageAt m' l1 = pageAt m l1 := by
  funext r
  cases r <;> simp [pageAt, hl2, hl3, hentry]

theorem at_put (hnone : pageAt m l1 r₀ = none)
    (h : pageAt m' l1 = Function.update (pageAt m l1) r₀ (some p)) (r : Place) (q : Word) :
    At m' l1 r q ↔ At m l1 r q ∨ r = r₀ ∧ q = p := by
  by_cases hr : r = r₀ <;> simp [At, h, hr, hnone, eq_comm]

theorem at_remove (h : pageAt m' l1 = Function.update (pageAt m l1) r₀ none) (r : Place)
    (q : Word) : At m' l1 r q ↔ At m l1 r q ∧ r ≠ r₀ := by
  by_cases hr : r = r₀ <;> simp [At, h, hr]

/-! ### The effect of one write -/

theorem At.ne (hex : Exclusive (At m l1))
    (hp : At m l1 r p) (hq : At m l1 r' q) (h : r ≠ r') : p ≠ q := by
  rintro rfl
  exact h (hex r r' p hp hq)

theorem fill_spec (hfree : ∀ r, ¬ At m l1 r p) (data : Nat → Word) :
    (∀ i, l2At (m.fill p data) l1 i = l2At m l1 i) ∧
      (∀ i j, l3At (m.fill p data) l1 i j = l3At m l1 i j) ∧
      ∀ i j k, entryAt (m.fill p data) l1 i j k = entryAt m l1 i j k := by
  have hmem : ∀ r q, At m l1 r q → (m.fill p data).mem q = m.mem q := by
    intro r q hq
    apply fill_mem_of_ne
    rintro rfl
    exact hfree r hq
  have hl2 : ∀ i, l2At (m.fill p data) l1 i = l2At m l1 i := fun i =>
    l2At_congr (by rw [hmem .l1 l1 rfl])
  have hl3 : ∀ i j, l3At (m.fill p data) l1 i j = l3At m l1 i j := fun i j =>
    l3At_congr (hl2 i) fun q hq => by rw [hmem (.l2 i) q hq]
  exact ⟨hl2, hl3, fun i j k =>
    entryAt_congr (hl3 i j) fun q hq => by rw [hmem (.l3 i j) q hq]⟩

section

variable (hex : Exclusive (At m l1))
include hex

theorem store_l3 (hq : l3At m l1 i j = some q) (hk : k < entriesPerTable) (v : Word) :
    (∀ i, l2At (m.store q k v) l1 i = l2At m l1 i) ∧
      (∀ i j, l3At (m.store q k v) l1 i j = l3At m l1 i j) ∧
      ∀ a b c, entryAt (m.store q k v) l1 a b c =
        if a = i ∧ b = j ∧ c = k then v else entryAt m l1 a b c := by
  have hat : At m l1 (.l3 i j) q := hq
  have hroot : At m l1 .l1 l1 := rfl
  have hl2 : ∀ i, l2At (m.store q k v) l1 i = l2At m l1 i := fun i =>
    l2At_congr (store_mem_of_ne m v (.inl (At.ne hex hroot hat (by simp))))
  have hl3 : ∀ i j, l3At (m.store q k v) l1 i j = l3At m l1 i j :=
    fun i j => l3At_congr (hl2 i) fun p (hp : At m l1 (.l2 i) p) =>
      store_mem_of_ne m v (.inl (At.ne hex hp hat (by simp)))
  refine ⟨hl2, hl3, fun a b c => ?_⟩
  split
  · rename_i h
    obtain ⟨rfl, rfl, rfl⟩ := h
    simp [entryAt, hl3, hq, hk]
  rename_i h
  apply entryAt_congr (hl3 a b)
  intro p (hp : At m l1 (.l3 a b) p)
  apply store_mem_of_ne
  by_cases hpq : p = q
  · right
    subst hpq
    have heq := hex _ _ p hp hat
    simp only [Place.l3.injEq] at heq
    exact fun hc => h ⟨heq.1, heq.2, hc⟩
  · exact .inl hpq

theorem store_l2 (hq : l2At m l1 i = some q) (hj : j < entriesPerTable) (v : Word) :
    (∀ a, l2At (m.store q j v) l1 a = l2At m l1 a) ∧ l3At (m.store q j v) l1 i j =
        (if pteType v = pteTypeTable then some (pteAddr v) else none) ∧
      (∀ a b, ¬ (a = i ∧ b = j) → l3At (m.store q j v) l1 a b = l3At m l1 a b) ∧
      ∀ a b c, ¬ (a = i ∧ b = j) → entryAt (m.store q j v) l1 a b c = entryAt m l1 a b c := by
  have hat : At m l1 (.l2 i) q := hq
  have hroot : At m l1 .l1 l1 := rfl
  have hl2 : ∀ a, l2At (m.store q j v) l1 a = l2At m l1 a := fun a =>
    l2At_congr (store_mem_of_ne m v (.inl (At.ne hex hroot hat (by simp))))
  have hl3 : ∀ a b, ¬ (a = i ∧ b = j) → l3At (m.store q j v) l1 a b = l3At m l1 a b := by
    intro a b hab
    apply l3At_congr (hl2 a)
    intro p (hp : At m l1 (.l2 a) p)
    apply store_mem_of_ne
    by_cases hpq : p = q
    · right
      subst hpq
      have heq := hex _ _ p hp hat
      simp only [Place.l2.injEq] at heq
      exact fun hb => hab ⟨heq, hb⟩
    · exact .inl hpq
  refine ⟨hl2, ?_, hl3, fun a b c hab => ?_⟩
  · simp [l3At, hl2, hq, hj, tableAt]
  apply entryAt_congr (hl3 a b hab)
  intro p (hp : At m l1 (.l3 a b) p)
  exact store_mem_of_ne m v (.inl (At.ne hex hp hat (by simp)))

theorem store_l1 (hi : userL1First ≤ i ∧ i < userL1Limit) (v : Word) :
    l2At (m.store l1 i v) l1 i = (if pteType v = pteTypeTable then some (pteAddr v) else none) ∧
      (∀ a, a ≠ i → l2At (m.store l1 i v) l1 a = l2At m l1 a) ∧
      (∀ a b, a ≠ i → l3At (m.store l1 i v) l1 a b = l3At m l1 a b) ∧
      ∀ a b c, a ≠ i → entryAt (m.store l1 i v) l1 a b c = entryAt m l1 a b c := by
  have hroot : At m l1 .l1 l1 := rfl
  have hl2 : ∀ a, a ≠ i → l2At (m.store l1 i v) l1 a = l2At m l1 a :=
    fun a ha => l2At_congr (store_mem_of_ne m v (.inr ha))
  have hl3 : ∀ a b, a ≠ i → l3At (m.store l1 i v) l1 a b = l3At m l1 a b := by
    intro a b ha
    apply l3At_congr (hl2 a ha)
    intro p (hp : At m l1 (.l2 a) p)
    exact store_mem_of_ne m v (.inl (At.ne hex hp hroot (by simp)))
  refine ⟨?_, hl2, hl3, fun a b c ha => ?_⟩
  · simp [l2At, hi, tableAt]
  apply entryAt_congr (hl3 a b ha)
  intro p (hp : At m l1 (.l3 a b) p)
  exact store_mem_of_ne m v (.inl (At.ne hex hp hroot (by simp)))

end

def IsPage (p : Word) : Prop := p &&& pteAddrMask = p ∧ p ≠ 0

section

variable (hex : Exclusive (At m l1))
include hex

theorem zero_exclusive (hnew : ∀ r, ¬ At m l1 r new) : Exclusive (At (m.zero new) l1) := by
  obtain ⟨hl2, hl3, hentry⟩ := fill_spec hnew fun _ => 0#64
  have hsame : pageAt (m.zero new) l1 = pageAt m l1 := pageAt_congr hl2 hl3 hentry
  intro r r' p hr hr'
  rw [At, hsame] at hr hr'
  exact hex r r' p hr hr'

theorem install_l3 (hq : l2At m l1 i = some q) (hj : j < entriesPerTable)
    (hnone : l3At m l1 i j = none) (hnew : ∀ r, ¬ At m l1 r new) (hpage : IsPage new)
    (hm : m' = (m.zero new).store q j (makeTableDesc new)) : (∀ a, l2At m' l1 a = l2At m l1 a) ∧
      (∀ a b, l3At m' l1 a b = if a = i ∧ b = j then some new else l3At m l1 a b) ∧
      ∀ a b c, entryAt m' l1 a b c = entryAt m l1 a b c := by
  obtain ⟨hz2, hz3, hze⟩ := fill_spec hnew fun _ => 0#64
  have hqz : l2At (m.zero new) l1 i = some q := by rw [← hq]; exact hz2 i
  obtain ⟨h2, hself, h3, he⟩ := store_l2 (zero_exclusive hex hnew) hqz hj (makeTableDesc new)
  rw [← hm] at h2 hself h3 he
  have hqnew : new ≠ q := by
    rintro rfl
    exact hnew (.l2 i) hq
  have hself : l3At m' l1 i j = some new := by simpa [hpage.1] using hself
  refine ⟨fun a => (h2 a).trans (hz2 a), fun a b => ?_, fun a b c => ?_⟩
  · split
    · rename_i hab
      rw [hab.1, hab.2, hself]
    · rename_i hab
      exact (h3 a b hab).trans (hz3 a b)
  by_cases hab : a = i ∧ b = j
  · obtain ⟨rfl, rfl⟩ := hab
    rw [entryAt_of_none hnone, entryAt, hself]
    simp [hm, store_mem_of_ne _ _ (.inl hqnew), zero, fill]
  · exact (he a b c hab).trans (hze a b c)

theorem install_l2 (hi : userL1First ≤ i ∧ i < userL1Limit) (hnone : l2At m l1 i = none)
    (hnew : ∀ r, ¬ At m l1 r new) (hpage : IsPage new)
    (hm : m' = (m.zero new).store l1 i (makeTableDesc new)) :
    (∀ a, l2At m' l1 a = if a = i then some new else l2At m l1 a) ∧
      (∀ a b, l3At m' l1 a b = l3At m l1 a b) ∧
      ∀ a b c, entryAt m' l1 a b c = entryAt m l1 a b c := by
  obtain ⟨hz2, hz3, hze⟩ := fill_spec hnew fun _ => 0#64
  obtain ⟨hself, h2, h3, he⟩ := store_l1 (zero_exclusive hex hnew) hi (makeTableDesc new)
  rw [← hm] at hself h2 h3 he
  have hrnew : new ≠ l1 := by
    rintro rfl
    exact hnew .l1 rfl
  have hself : l2At m' l1 i = some new := by simpa [hpage.1] using hself
  have hempty : ∀ b, l3At m' l1 i b = none := by
    intro b
    rw [l3At, hself]
    simp [tableAt, hm, store_mem_of_ne _ _ (.inl hrnew), zero, fill,
      Ne.symm pteTypeTable_ne_invalid]
  refine ⟨fun a => ?_, fun a b => ?_, fun a b c => ?_⟩
  · split
    · rename_i ha
      rw [ha, hself]
    · rename_i ha
      exact (h2 a ha).trans (hz2 a)
  · by_cases ha : a = i
    · rw [ha, hempty, l3At_of_none hnone]
    · exact (h3 a b ha).trans (hz3 a b)
  by_cases ha : a = i
  · rw [ha, entryAt_of_none (hempty b), entryAt_of_none (l3At_of_none hnone)]
  · exact (he a b c ha).trans (hze a b c)

theorem remove_l2 (hi : userL1First ≤ i ∧ i < userL1Limit) (hempty : ∀ b, l3At m l1 i b = none) :
    (∀ a, l2At (m.store l1 i 0#64) l1 a =
        if a = i then none else l2At m l1 a) ∧
      (∀ a b, l3At (m.store l1 i 0#64) l1 a b = l3At m l1 a b) ∧
      ∀ a b c, entryAt (m.store l1 i 0#64) l1 a b c = entryAt m l1 a b c := by
  obtain ⟨hself, h2, h3, he⟩ := store_l1 hex hi 0#64
  have hself : l2At (m.store l1 i 0#64) l1 i = none := by
    simpa [Ne.symm pteTypeTable_ne_invalid] using hself
  refine ⟨fun a => ?_, fun a b => ?_, fun a b c => ?_⟩
  · split
    · rename_i ha
      rw [ha, hself]
    · rename_i ha
      exact h2 a ha
  · by_cases ha : a = i
    · rw [ha, hempty, l3At_of_none hself]
    · exact h3 a b ha
  by_cases ha : a = i
  · rw [ha, entryAt_of_none (hempty b), entryAt_of_none (l3At_of_none hself)]
  · exact he a b c ha

end

/-! ## The accounts -/

/--
The pages that the address space holds are those in its places and those that the
code has in hand; `pool` is the set of the pages that are held or free.
-/
structure Tidy (pool : Word → Prop) (m : Machine) (l1 : Word)
    (hand : List Word) : Prop where
  balanced : InBalance m.pmm.log
  held : ∀ p, isHeld m.pmm.log p = true ↔ (∃ r, At m l1 r p) ∨ p ∈ hand
  exclusive : Exclusive (At m l1)
  apart : ∀ r p, At m l1 r p → p ∉ hand
  nodup : hand.Nodup
  shared : ∀ p, pool p ↔ m.pmm.free p = true ∨ isHeld m.pmm.log p = true
  taken : ∀ p, isHeld m.pmm.log p = true → m.pmm.free p = false
  page : ∀ p, pool p → IsPage p
  accessed : ∀ i j k, entryAt m l1 i j k = 0#64 ∨ Accessed (entryAt m l1 i j k)

structure Grows (m m' : Machine) (l1 : Word) : Prop where
  l2 : ∀ i p, l2At m l1 i = some p → l2At m' l1 i = some p
  l3 : ∀ i j p, l3At m l1 i j = some p → l3At m' l1 i j = some p

theorem Grows.refl (m : Machine) (l1 : Word) : Grows m m l1 := ⟨fun _ _ h => h, fun _ _ _ h => h⟩

theorem Grows.trans (h : Grows m m' l1) (h' : Grows m' m'' l1) : Grows m m'' l1 :=
  ⟨fun i p hp => h'.l2 i p (h.l2 i p hp), fun i j p hp => h'.l3 i j p (h.l3 i j p hp)⟩

namespace Tidy

variable {pool : Word → Prop}

theorem in_hand (h : Tidy pool m l1 (p :: hand)) (r : Place) : ¬ At m l1 r p := by
  intro hr
  have hnot := h.apart r p hr
  simp at hnot

theorem isPage_of_held (h : Tidy pool m l1 hand) (hp : isHeld m.pmm.log p = true) : IsPage p :=
  h.page p ((h.shared p).mpr (.inr hp))

theorem put (r₀ : Place) (h : Tidy pool m l1 (p :: hand)) (hpmm : m'.pmm = m.pmm)
    (hat : ∀ r q, At m' l1 r q ↔ At m l1 r q ∨ r = r₀ ∧ q = p)
    (haccessed : ∀ i j k, entryAt m' l1 i j k = 0#64 ∨ Accessed (entryAt m' l1 i j k)) :
    Tidy pool m' l1 hand where
  balanced := by simpa [hpmm] using h.balanced
  held := by
    intro q
    have hq := h.held q
    simp only [hpmm, hq, hat, mem_cons]
    constructor
    · rintro (⟨r, hr⟩ | rfl | hq)
      · exact .inl ⟨r, .inl hr⟩
      · exact .inl ⟨r₀, .inr ⟨rfl, rfl⟩⟩
      · exact .inr hq
    rintro (⟨r, hr | ⟨rfl, rfl⟩⟩ | hq)
    · exact .inl ⟨r, hr⟩
    · exact .inr (.inl rfl)
    · exact .inr (.inr hq)
  exclusive := by
    refine h.exclusive.move p r₀ fun r q hr => ?_
    rcases (hat r q).mp hr with hr | ⟨rfl, rfl⟩
    · refine .inr ⟨?_, hr⟩
      rintro rfl
      exact h.in_hand r hr
    · exact .inl ⟨rfl, rfl⟩
  apart := by
    intro r q hr
    rcases (hat r q).mp hr with hr | ⟨rfl, rfl⟩
    · exact fun hq => h.apart r q hr (mem_cons_of_mem p hq)
    · exact (nodup_cons.mp h.nodup).1
  nodup := (nodup_cons.mp h.nodup).2
  shared := by simpa [hpmm] using h.shared
  taken := by simpa [hpmm] using h.taken
  page := h.page
  accessed := haccessed

theorem remove (r₀ : Place) (h : Tidy pool m l1 hand) (hpmm : m'.pmm = m.pmm) (hp : At m l1 r₀ p)
    (hat : ∀ r q, At m' l1 r q ↔ At m l1 r q ∧ r ≠ r₀)
    (haccessed : ∀ i j k, entryAt m' l1 i j k = 0#64 ∨ Accessed (entryAt m' l1 i j k)) :
    Tidy pool m' l1 (p :: hand) where
  balanced := by simpa [hpmm] using h.balanced
  held := by
    intro q
    have hq := h.held q
    simp only [hpmm, hq, hat, mem_cons]
    constructor
    · rintro (⟨r, hr⟩ | hq)
      · by_cases hrr : r = r₀
        · subst hrr
          exact .inr (.inl (Option.some.inj (hr.symm.trans hp)))
        · exact .inl ⟨r, hr, hrr⟩
      · exact .inr (.inr hq)
    rintro (⟨r, hr, -⟩ | rfl | hq)
    · exact .inl ⟨r, hr⟩
    · exact .inl ⟨r₀, hp⟩
    · exact .inr hq
  exclusive := h.exclusive.mono fun r q hr => ((hat r q).mp hr).1
  apart := by
    intro r q hr
    obtain ⟨hr, hne⟩ := (hat r q).mp hr
    simp only [mem_cons, not_or]
    refine ⟨?_, h.apart r q hr⟩
    rintro rfl
    exact hne (h.exclusive r r₀ q hr hp)
  nodup := nodup_cons.mpr ⟨h.apart r₀ p hp, h.nodup⟩
  shared := by simpa [hpmm] using h.shared
  taken := by simpa [hpmm] using h.taken
  page := h.page
  accessed := haccessed

theorem same (h : Tidy pool m l1 hand) (hfree : m'.pmm.free = m.pmm.free)
    (hlog : m'.pmm.log = m.pmm.log) (hat : pageAt m' l1 = pageAt m l1)
    (haccessed : ∀ i j k, entryAt m' l1 i j k = 0#64 ∨ Accessed (entryAt m' l1 i j k)) :
    Tidy pool m' l1 hand where
  balanced := by simpa [hlog] using h.balanced
  held := by simpa [hlog, At, hat] using h.held
  exclusive := by simpa [Exclusive, At, hat] using h.exclusive
  apart := by simpa [At, hat] using h.apart
  nodup := h.nodup
  shared := by simpa [hlog, hfree] using h.shared
  taken := by simpa [hlog, hfree] using h.taken
  page := h.page
  accessed := haccessed

end Tidy

/-! ### The allocator -/

theorem pageAt_pmm (m : Machine) (pmm : Pmm) (l1 : Word) :
    pageAt { m with pmm := pmm } l1 = pageAt m l1 := by
  funext r
  cases r <;> rfl

theorem blockPages_one (p : Word) : blockPages p 1 = [p] := by
  simp [blockPages]

def Pmm.called (pmm : Pmm) : Pmm := { pmm with calls := pmm.calls + 1 }

theorem alloc_cases (choose : Nat → Option Word) (m : Machine) :
    m.alloc choose = ({ m with pmm := m.pmm.called }, none) ∨ ∃ p, m.pmm.free p = true ∧
        m.alloc choose = ({ m with pmm := m.pmm.called.take p }, some p) := by
  unfold alloc pmmAllocPages
  cases choose m.pmm.calls with
  | none => simp [called]
  | some p =>
    by_cases hfree : m.pmm.free p = true
    · right
      exact ⟨p, hfree, by simp [blockPages_one, hfree, called]⟩
    left
    simp [blockPages_one, hfree, called]

theorem alloc_eq {choose : Nat → Option Word} {m : Machine} {p : Word}
    (hchoose : choose m.pmm.calls = some p) (hfree : m.pmm.free p = true) :
    m.alloc choose = ({ m with pmm := m.pmm.called.take p }, some p) := by
  unfold alloc pmmAllocPages
  simp [hchoose, blockPages_one, hfree, called]

namespace Tidy

variable {pool : Word → Prop}

theorem called (h : Tidy pool m l1 hand) : Tidy pool { m with pmm := m.pmm.called } l1 hand :=
  h.same rfl rfl (pageAt_pmm m _ l1) h.accessed

theorem take {l1 : Word} {hand : List Word}
    (h : Tidy pool m l1 hand) (hfree : m.pmm.free p = true) :
    Tidy pool { m with pmm := m.pmm.called.take p } l1 (p :: hand) := by
  have hnot : isHeld m.pmm.log p = false := by
    by_contra hheld
    simp [h.taken p (by simpa using hheld)] at hfree
  have hplace : ∀ r q, At { m with pmm := m.pmm.called.take p } l1 r q ↔ At m l1 r q := by
    simp [At, pageAt_pmm]
  constructor
  · simpa [Pmm.take, Pmm.called, hnot] using h.balanced
  · intro q
    simp only [hplace]
    simp [Pmm.take, Pmm.called, h.held q, or_left_comm]
  · exact h.exclusive.mono fun r q hr => (hplace r q).mp hr
  · intro r q hr
    have hr := (hplace r q).mp hr
    simp only [List.mem_cons, not_or]
    refine ⟨?_, h.apart r q hr⟩
    rintro rfl
    simp [(h.held q).mpr (.inl ⟨r, hr⟩)] at hnot
  · refine List.nodup_cons.mpr ⟨fun hmem => ?_, h.nodup⟩
    simp [(h.held p).mpr (.inr hmem)] at hnot
  · intro q
    by_cases hq : q = p
    · subst hq
      simp [Pmm.take, Pmm.called, h.shared, hfree]
    · simp [Pmm.take, Pmm.called, h.shared, hq]
  · intro q hq
    by_cases hqp : q = p
    · simp [Pmm.take, hqp]
    simp [Pmm.take, Pmm.called, hqp] at hq ⊢
    exact h.taken q hq
  · exact h.page
  · exact h.accessed

theorem release {m : Machine} {l1 : Word} {hand : List Word}
    (h : Tidy pool m l1 (p :: hand)) : Tidy pool (m.release p) l1 hand := by
  have hheld : isHeld m.pmm.log p = true := (h.held p).mpr (.inr (by simp))
  have hnot := (List.nodup_cons.mp h.nodup).1
  have hplace : ∀ r q, At (m.release p) l1 r q ↔ At m l1 r q := by
    simp [At, Machine.release, pageAt_pmm]
  have hpmm : (m.release p).pmm = m.pmm.give p := by
    simp [Machine.release, pmmFreePages, blockPages_one]
  constructor
  · simpa [hpmm, give, hheld] using h.balanced
  · intro q
    have hq := h.held q
    simp only [List.mem_cons] at hq
    simp only [hpmm, give, isHeld_give, hplace, hq]
    constructor
    · rintro ⟨hne, hr | rfl | hr⟩
      · exact .inl hr
      · exact absurd rfl hne
      · exact .inr hr
    rintro (⟨r, hr⟩ | hr)
    · refine ⟨?_, .inl ⟨r, hr⟩⟩
      rintro rfl
      exact h.in_hand r hr
    refine ⟨?_, .inr (.inr hr)⟩
    rintro rfl
    exact hnot hr
  · exact h.exclusive.mono fun r q hr => (hplace r q).mp hr
  · intro r q hr hq
    exact h.apart r q ((hplace r q).mp hr) (List.mem_cons_of_mem p hq)
  · exact (List.nodup_cons.mp h.nodup).2
  · intro q
    by_cases hq : q = p
    · subst hq
      simp [hpmm, give, h.shared, hheld]
    · simp [hpmm, give, h.shared, hq]
  · intro q hq
    simp only [hpmm, give, isHeld_give] at hq ⊢
    simpa [hq.1] using h.taken q hq.2
  · exact h.page
  · exact h.accessed

/-! ### Installing and writing -/

theorem installL2 (h : Tidy pool m l1 (p :: hand)) (hi : userL1First ≤ i ∧ i < userL1Limit)
    (hnone : l2At m l1 i = none) : Tidy pool ((m.zero p).store l1 i (makeTableDesc p)) l1 hand := by
  have hpage : IsPage p := h.isPage_of_held ((h.held p).mpr (by simp))
  obtain ⟨h2, h3, he⟩ := install_l2 h.exclusive hi hnone h.in_hand hpage rfl
  refine h.put (.l2 i) rfl (at_put hnone ?_) fun a b c => ?_
  · funext r
    cases r <;> simp [pageAt, h2, h3, he, Function.update_apply]
  · simpa [he] using h.accessed a b c

theorem installL3 (h : Tidy pool m l1 (p :: hand)) (hq : l2At m l1 i = some q)
    (hj : j < entriesPerTable) (hnone : l3At m l1 i j = none) :
    Tidy pool ((m.zero p).store q j (makeTableDesc p)) l1 hand := by
  have hpage : IsPage p := h.isPage_of_held ((h.held p).mpr (by simp))
  obtain ⟨h2, h3, he⟩ := install_l3 h.exclusive hq hj hnone h.in_hand hpage rfl
  refine h.put (.l3 i j) rfl (at_put hnone ?_) fun a b c => ?_
  · funext r
    cases r <;> simp [pageAt, h2, h3, he, Function.update_apply]
  · simpa [he] using h.accessed a b c

theorem removeL2 (h : Tidy pool m l1 hand) (hi : userL1First ≤ i ∧ i < userL1Limit)
    (hp : l2At m l1 i = some p) (hempty : ∀ b, l3At m l1 i b = none) :
    Tidy pool (m.store l1 i 0#64) l1 (p :: hand) := by
  obtain ⟨h2, h3, he⟩ := remove_l2 h.exclusive hi hempty
  refine h.remove (.l2 i) rfl hp (at_remove ?_) fun a b c => ?_
  · funext r
    cases r <;> simp [pageAt, h2, h3, he, Function.update_apply]
  · simpa [he] using h.accessed a b c

theorem writeOwned (h : Tidy pool m l1 (p :: hand)) (hq : l3At m l1 i j = some q)
    (hk : k < entriesPerTable) (hempty : entryAt m l1 i j k = 0#64)
    (howned : hasFlag flags vmmFlagPmmOwned = true) :
    Tidy pool (m.store q k (makePageDesc p flags)) l1 hand := by
  have hpage : IsPage p := h.isPage_of_held ((h.held p).mpr (by simp))
  obtain ⟨h2, h3, he⟩ := store_l3 h.exclusive hq hk (makePageDesc p flags)
  refine h.put (.leaf i j k) rfl (at_put (by simp [pageAt, hempty]) ?_) fun a b c => ?_
  · funext r
    cases r with
    | leaf a b c =>
      by_cases habc : a = i ∧ b = j ∧ c = k <;>
        simp [pageAt, he, habc, howned, hpage.1]
    | _ => simp [pageAt, h2, h3]
  rw [he]
  split
  · exact .inr (accessed_makePageDesc p flags)
  · exact h.accessed a b c

theorem writeBorrowed (h : Tidy pool m l1 hand) (hq : l3At m l1 i j = some q)
    (hk : k < entriesPerTable) (hempty : entryAt m l1 i j k = 0#64)
    (howned : hasFlag flags vmmFlagPmmOwned = false) :
    Tidy pool (m.store q k (makePageDesc pa flags)) l1 hand := by
  obtain ⟨h2, h3, he⟩ := store_l3 h.exclusive hq hk (makePageDesc pa flags)
  refine h.same rfl rfl ?_ fun a b c => ?_
  · funext r
    cases r with
    | leaf a b c =>
      by_cases habc : a = i ∧ b = j ∧ c = k
      · obtain ⟨rfl, rfl, rfl⟩ := habc
        simp [pageAt, he, hempty, howned]
      · simp [pageAt, he, habc]
    | _ => simp [pageAt, h2, h3]
  rw [he]
  split
  · exact .inr (accessed_makePageDesc pa flags)
  · exact h.accessed a b c

end Tidy

end SlmOs.Vmm
