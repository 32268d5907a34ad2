import SlmOs.Router.Table

/-!
# Who gets a published message

The tables hold each subscription once, so the mailboxes that a publisher gathers
stand one to one for the subscriptions that match its topic at that moment.
-/

namespace SlmOs.Router

open Function Foundation List Table Topic WildcardSub
open Or (inl inr)

/-! ## Matching -/

theorem takeWhile_length_getElem? {l : Text} (h : star ∈ l) :
    l[(l.takeWhile (· != star)).length]? = some star := by
  induction l with
  | nil => cases h
  | cons c l ih =>
    by_cases hc : c = star
    · simp [hc]
    · simpa [hc] using ih ((mem_cons.mp h).resolve_left (Ne.symm hc))

theorem range_all_getElem? (p l t : Text) (hp : p <+: l) :
    ((List.range p.length).all fun i => t[i]? == l[i]?) = p.isPrefixOf t := by
  obtain ⟨rest, rfl⟩ := hp
  induction p generalizing t with
  | nil => simp
  | cons c p ih =>
    cases t with
    | nil => simp [range_succ_eq_map]
    | cons d t =>
      have hrest := ih t
      simp only [length_cons, range_succ_eq_map, all_cons, all_map, cons_append] at hrest ⊢
      rw [List.isPrefixOf, ← hrest]
      congr 1
      simp [eq_comm]

theorem wildcardMatches_eq {pattern : Text} (h : isWildcardPattern pattern = true)
    (topic : Text) : wildcardMatches pattern topic = patternMatches pattern topic := by
  have hmem : star ∈ pattern := by
    simp only [isWildcardPattern, beq_iff_eq] at h
    exact mem_of_getLast? h
  simp only [wildcardMatches, patternMatches, h, if_true, takeWhile_length_getElem? hmem]
  exact range_all_getElem? _ _ _ ( takeWhile_prefix _)

/-! ## One topic -/

def Topic.used (t : Topic) : Nat :=
  (List.range maxSubscribers).countP fun j => t.subs j != unused

structure Topic.Sound (t : Topic) : Prop where
  count : t.subCount = t.used
  active : t.isActive = true ↔ 0 < t.used
  plain : isWildcardPattern t.name = false

theorem Topic.used_eq_zero (t : Topic) : t.used = 0 ↔ ∀ j < maxSubscribers, t.subs j = unused := by
  simp [used, countP_eq_zero]

theorem Topic.sound_new : Topic.new.Sound := by
  constructor <;> decide

variable {j : Nat} {x : Sub} {t : Topic}

@[simp] theorem Topic.sub_eq_some : t.sub j = some x ↔
      t.isActive = true ∧ t.subs j = x.1 ∧ t.name = x.2 ∧ x.1 ≠ unused := by
  obtain ⟨c, name⟩ := x
  simp only [Topic.sub]
  grind

theorem Topic.sub_new (j : Nat) : Topic.new.sub j = none := rfl

theorem Topic.removeAt_subs (c : Int) (t : Topic) (j : Nat) : (t.removeAt c j).subs =
      update t.subs j (if t.subs j = c then unused else t.subs j) := by
  by_cases h : t.subs j = c <;> simp [removeAt, h]

theorem Topic.removeAt_name (c : Int) (t : Topic) (j : Nat) : (t.removeAt c j).name = t.name := by
  unfold removeAt
  split <;> rfl

theorem Topic.remove_name (c : Int) (t : Topic) : (t.remove c).name = t.name :=
  foldl_frame (removeAt_name c) _ t

theorem Topic.foldl_removeAt_subs (c : Int) (t : Topic) (n : Nat) :
    ((List.range n).foldl (Topic.removeAt c) t).subs = fun j =>
      if j < n then (if t.subs j = c then unused else t.subs j) else t.subs j :=
  foldl_range_pointwise (g := fun x => if x = c then unused else x) (removeAt_subs c) n t

theorem Topic.foldl_removeAt_subCount (c : Int) (t : Topic) (n : Nat) :
    ((List.range n).foldl (Topic.removeAt c) t).subCount =
      t.subCount - (List.range n).countP fun j => t.subs j == c := by
  induction n with
  | zero => simp
  | succ n ih =>
    have hsubs := congrFun (foldl_removeAt_subs c t n) n
    rw [range_succ, foldl_append, foldl_cons, foldl_nil, countP_append, removeAt, hsubs]
    by_cases h : t.subs n = c
    · simp only [if_pos h, ih]
      simp [h]
      omega
    · simp [h, ih]

theorem Topic.remove_subs (c : Int) (t : Topic) (hj : j < maxSubscribers) :
    (t.remove c).subs j = if t.subs j = c then unused else t.subs j := by
  simp [remove, foldl_removeAt_subs, hj]

theorem Topic.remove_used (hc : c ≠ unused) (t : Topic) : t.used = (t.remove c).used +
      (List.range maxSubscribers).countP fun j => t.subs j == c := by
  have hused : (t.remove c).used = (List.range maxSubscribers).countP fun j =>
      t.subs j != unused && t.subs j != c := by
    refine countP_congr fun j hj => ?_
    rw [remove_subs c t (mem_range.mp hj)]
    grind
  rw [hused]
  refine countP_split (fun j => ?_) fun j => ?_ <;> grind

theorem Topic.remove_count (hc : c ≠ unused) (h : t.Sound) :
    (t.remove c).subCount = (t.remove c).used := by
  have hsub := foldl_removeAt_subCount c t maxSubscribers
  have hused := t.remove_used hc
  have hcount := h.count
  simp only [remove] at hused ⊢
  omega

def Topic.drop (c : Int) (t : Topic) : Topic :=
  if t.isActive then (if (t.remove c).subCount ≤ 0 then .new else t.remove c) else t

theorem Topic.drop_cases (hc : c ≠ unused) (h : t.Sound) :
    (t.drop c = .new ∧ (t.remove c).used = 0) ∨ (t.drop c = t ∧ t.used = 0) ∨
      (t.drop c = t.remove c ∧ t.isActive = true ∧ 0 < (t.remove c).used) := by
  have hcount := remove_count hc h
  by_cases ha : t.isActive = true
  · by_cases hz : (t.remove c).subCount ≤ 0
    · exact inl ⟨by simp [drop, ha, hz], by omega⟩
    · exact inr (inr ⟨by simp [drop, ha, hz], ha, by omega⟩)
  exact inr (inl ⟨by simp [drop, ha], Nat.eq_zero_of_not_pos (mt h.active.mpr ha)⟩)

theorem Topic.Sound.drop (hc : c ≠ unused) (h : t.Sound) : (t.drop c).Sound := by
  rcases drop_cases hc h with ⟨hd, -⟩ | ⟨hd, -⟩ | ⟨hd, ha, hpos⟩
  · rw [hd]
    exact sound_new
  · rwa [hd]
  rw [hd]
  have hactive : (t.remove c).isActive = true := by
    rwa [isActive, remove_name]
  exact ⟨remove_count hc h, by simp [hactive, hpos], by rw [remove_name]; exact h.plain⟩

theorem Topic.drop_sub (hc : c ≠ unused) (h : t.Sound) (hj : j < maxSubscribers) (x : Sub) :
    (t.drop c).sub j = some x ↔ t.sub j = some x ∧ x.1 ≠ c := by
  have hsubs := remove_subs c t hj
  have hname := remove_name c t
  have hact : (t.remove c).isActive = t.isActive := by simp [isActive, hname]
  rcases drop_cases hc h with ⟨hd, hz⟩ | ⟨hd, hz⟩ | ⟨hd, ha, hpos⟩
  · have hnone := (used_eq_zero _).mp hz j hj
    rw [hd, sub_new, sub_eq_some]
    grind
  · have hnone := (used_eq_zero _).mp hz j hj
    rw [hd, sub_eq_some]
    grind
  rw [hd, sub_eq_some, sub_eq_some, hname, hact, hsubs]
  grind

/-- A topic after a subscription: the component was there already, or it has got the
place `j`. -/
theorem Topic.add_eq_some (h : t.add c = some t') :
    (t' = t ∧ ∃ j < maxSubscribers, t.subs j = c) ∨ ∃ j < maxSubscribers, t.subs j = unused ∧
        (∀ j' < maxSubscribers, t.subs j' ≠ c) ∧
        t' = { t with
          subs := update t.subs j c, subCount := t.subCount + 1 } := by
  simp only [Topic.add] at h
  by_cases hany : ((List.range maxSubscribers).any fun j => t.subs j == c) = true
  · rw [if_pos hany] at h
    exact inl ⟨(Option.some.inj h).symm, by simpa using hany⟩
  rw [if_neg hany] at h
  obtain ⟨j, hfind, rfl⟩ := Option.map_eq_some_iff.mp h
  obtain ⟨hj, hfree⟩ := find?_range_some hfind
  exact inr ⟨j, hj, by simpa using hfree, by simpa using hany, rfl⟩

theorem Topic.add_of_unused (c : Int)
    (h : ∀ j < maxSubscribers, t.subs j = unused) : t.add c ≠ none := by
  simp only [Topic.add]
  split
  · simp
  rw [ne_eq, Option.map_eq_none_iff, find?_eq_none]
  intro hall
  exact hall 0 (by decide) (by simp [h 0 (by decide)])

theorem Topic.used_update (hj : j < maxSubscribers) (hfree : t.subs j = unused) (hc : c ≠ unused) :
    ({ t with subs := update t.subs j c, subCount := n } : Topic).used = t.used + 1 :=
  countP_succ (b := j) (by simp [hfree]) (by simpa using hc)
    (fun j' hj' => by simp [hj']) nodup_range (mem_range.mpr hj)

/-! ## The tables -/

structure WildcardSub.Sound (w : WildcardSub) : Prop where
  pattern : w.isActive = true → isWildcardPattern w.pattern = true
  inUse : w.isActive = true ↔ w.componentIdx ≠ unused

theorem WildcardSub.sound_new : WildcardSub.new.Sound := by
  constructor <;> decide

structure Table.Sound (tb : Table) (subs : List Sub) : Prop where
  topics : ∀ i < maxTopics, (tb.topics i).Sound
  wildcards : ∀ i < maxWildcardSubs, (tb.wildcards i).Sound
  names : ∀ i < maxTopics, ∀ i' < maxTopics, (tb.topics i).isActive = true →
    (tb.topics i).name = (tb.topics i').name → i = i'
  once : Exclusive fun r x => tb.owner r = some x
  subs : ∀ x, x ∈ subs ↔ ∃ r, tb.owner r = some x

@[simp] theorem WildcardSub.sub_eq_some {w : WildcardSub} : w.sub = some x ↔
      w.isActive = true ∧ w.componentIdx = x.1 ∧ w.pattern = x.2 ∧ x.1 ≠ unused := by
  obtain ⟨c, name⟩ := x
  simp only [WildcardSub.sub]
  grind

@[simp] theorem Table.owner_exact {tb : Table} {i : Nat} : tb.owner (.exact i j) = some x ↔
      (i < maxTopics ∧ j < maxSubscribers) ∧ (tb.topics i).sub j = some x := by
  rw [owner, Option.ite_none_right_eq_some]

@[simp] theorem Table.owner_wild {tb : Table} {i : Nat} : tb.owner (.wild i) = some x ↔
      i < maxWildcardSubs ∧ (tb.wildcards i).sub = some x := by
  rw [owner, Option.ite_none_right_eq_some]

section

variable {tb : Table} {subs : List Sub}

theorem Table.sound_new : Table.new.Sound [] where
  topics := fun _ _ => Topic.sound_new
  wildcards := fun _ _ => WildcardSub.sound_new
  names := nofun
  once := by
    intro r r' x h
    cases r <;> simp [Table.new, Topic.new, Topic.isActive, WildcardSub.new,
      WildcardSub.isActive] at h
  subs := by
    intro x
    simp only [List.not_mem_nil, false_iff, not_exists]
    rintro (⟨i, j⟩ | i) <;> simp [Table.new, Topic.new, Topic.isActive,
      WildcardSub.new, WildcardSub.isActive]

theorem Table.Sound.again (h : tb.Sound subs)
    (hr : tb.owner r = some x) : tb.Sound (x :: subs) where
  topics := h.topics
  wildcards := h.wildcards
  names := h.names
  once := h.once
  subs := by
    intro y
    rw [mem_cons, h.subs y]
    exact ⟨fun hy => hy.elim (fun e => ⟨r, e ▸ hr⟩) id, inr⟩

theorem owners_add {owner : Slot → Option Sub} (owner' : Slot → Option Sub)
    (honce : Exclusive fun r x => owner r = some x) (hsubs : ∀ y, y ∈ subs ↔ ∃ r, owner r = some y)
    (hnew : ∀ r, owner r ≠ some x) (hfree : owner r = none) (hr : owner' r = some x)
    (hother : ∀ r', r' ≠ r → owner' r' = owner r') :
    (Exclusive fun r x => owner' r = some x) ∧ ∀ y, y ∈ x :: subs ↔ ∃ r, owner' r = some y := by
  constructor
  · refine honce.move x r fun p y hp => ?_
    by_cases hpr : p = r
    · subst hpr
      exact inl ⟨Option.some.inj (hp.symm.trans hr), rfl⟩
    rw [hother p hpr] at hp
    exact inr ⟨fun e => hnew p (e ▸ hp), hp⟩
  intro y
  rw [mem_cons, hsubs y]
  constructor
  · rintro (rfl | ⟨p, hp⟩)
    · exact ⟨r, hr⟩
    · have hpr : p ≠ r := fun e => by simp [e, hfree] at hp
      exact ⟨p, by rw [hother p hpr, hp]⟩
  rintro ⟨p, hp⟩
  by_cases hpr : p = r
  · exact inl (Option.some.inj ((hpr ▸ hp).symm.trans hr))
  · exact inr ⟨p, by rw [← hother p hpr, hp]⟩

/-! ## Subscribing -/

theorem Table.findTopic_some {name : Text} {i : Nat} (h : tb.findTopic name = some i) :
    i < maxTopics ∧ (tb.topics i).isActive = true ∧ (tb.topics i).name = name := by
  obtain ⟨hi, hfound⟩ := find?_range_some h
  simp only [Bool.and_eq_true, beq_iff_eq] at hfound
  exact ⟨hi, hfound⟩

theorem Table.Sound.subscribeWildcard (h : tb.Sound subs) {name : Text} {c : Int}
    (hname : isWildcardPattern name = true) (hc : c ≠ unused) :
    (tb.subscribeWildcard name c).1.Sound
      (if (tb.subscribeWildcard name c).2 then (c, name) :: subs else subs) := by
  have hne : name ≠ [] := by rintro rfl; cases hname
  unfold Table.subscribeWildcard
  by_cases hany : ((List.range maxWildcardSubs).any fun i =>
      (tb.wildcards i).isActive && (tb.wildcards i).componentIdx == c &&
        (tb.wildcards i).pattern == name) = true
  · rw [if_pos hany]
    simp only [List.any_eq_true, List.mem_range, Bool.and_eq_true, beq_iff_eq] at hany
    obtain ⟨i, hi, ⟨ha, hci⟩, hpi⟩ := hany
    exact h.again (r := .wild i) (by simp [hi, ha, hci, hpi, hc])
  rw [if_neg hany]
  split
  · rename_i i hfind
    obtain ⟨hi, hfound⟩ := find?_range_some hfind
    have hidle : (tb.wildcards i).isActive = false := by simpa using hfound
    obtain ⟨honce, hsubs⟩ := owners_add (r := .wild i) (x := (c, name)) (Table.owner
        { tb with wildcards := update tb.wildcards i ⟨name, c⟩ })
      h.once h.subs
      (by
        rintro (⟨i', j⟩ | i') hown
        · simp only [Table.owner_exact, Topic.sub_eq_some] at hown
          have hplain := (h.topics i' hown.1.1).plain
          rw [hown.2.2.2.1, hname] at hplain
          cases hplain
        simp only [Table.owner_wild, WildcardSub.sub_eq_some] at hown
        exact hany (List.any_eq_true.mpr ⟨i', List.mem_range.mpr hown.1, by simp [hown.2]⟩))
      (by simp [Table.owner, WildcardSub.sub, hidle])
      (by simp [hi, WildcardSub.isActive, hne, hc])
      (by
        rintro (⟨i', j⟩ | i') hr
        · rfl
        have hi' : i' ≠ i := fun e => hr (by rw [e])
        simp [Table.owner, hi'])
    refine ⟨h.topics, fun i' hi' => ?_, h.names, honce, hsubs⟩
    by_cases he : i' = i
    · subst he
      simp only [update_self]
      exact ⟨fun _ => hname, by simp [WildcardSub.isActive, hne, hc]⟩
    · simpa [he] using h.wildcards i' hi'
  · simpa using h

theorem Table.Sound.setTopic (h : tb.Sound subs) {i j : Nat} {c : Int} {name : Text} {t : Topic}
    {n : Int} (hi : i < maxTopics) (hj : j < maxSubscribers) (hc : c ≠ unused) (hname : name ≠ [])
    (hplain : isWildcardPattern name = false) (hfree : (tb.topics i).subs j = unused)
    (hnot : ∀ j' < maxSubscribers, (tb.topics i).subs j' ≠ c)
    (hsame : ∀ i' < maxTopics, (tb.topics i').name = name → i' = i)
    (hold : (tb.topics i).isActive = true → (tb.topics i).name = name)
    (ht : t = ⟨name, update (tb.topics i).subs j c, ((tb.topics i).used : Int) + 1⟩) :
    ({ tb with
        topics := update tb.topics i t, topicCount := n } : Table).Sound
      ((c, name) :: subs) := by
  have hused : t.used = (tb.topics i).used + 1 := by
    rw [ht]
    exact Topic.used_update (t := ⟨name, (tb.topics i).subs, 0⟩) hj hfree hc
  have hactive : t.isActive = true := by simp [ht, Topic.isActive, hname]
  have hidle : (tb.topics i).isActive = false →
      ∀ j' < maxSubscribers, (tb.topics i).subs j' = unused := by
    intro ha
    have := (h.topics i hi).active
    exact (Topic.used_eq_zero _).mp (by grind)
  obtain ⟨honce, hsubs⟩ := owners_add (r := .exact i j) (x := (c, name)) (Table.owner
      { tb with topics := update tb.topics i t, topicCount := n })
    h.once h.subs
    (by
      rintro (⟨i', j'⟩ | i') hown
      · simp only [Table.owner_exact, Topic.sub_eq_some] at hown
        have he := hsame i' hown.1.1 hown.2.2.2.1
        exact hnot j' hown.1.2 (he ▸ hown.2.2.1)
      simp only [Table.owner_wild, WildcardSub.sub_eq_some] at hown
      have hpat := (h.wildcards i' hown.1).pattern hown.2.1
      rw [hown.2.2.2.1, hplain] at hpat
      cases hpat)
    (by simp [Table.owner, Topic.sub, hfree])
    (by simp [hi, hj, ht, Topic.isActive, hname, hc])
    (by
      rintro (⟨i', j'⟩ | i') hr
      · by_cases he : i' = i
        · subst he
          have hj' : j' ≠ j := fun e => hr (by rw [e])
          ext x
          simp only [Table.owner_exact, Topic.sub_eq_some, update_self, hactive]
          rw [ht]
          simp only [update_of_ne hj']
          grind
        · simp [Table.owner, he]
      · rfl)
  refine ⟨fun i' hi' => ?_, h.wildcards, fun i₁ h₁ i₂ h₂ ha heq => ?_, honce, hsubs⟩
  · by_cases he : i' = i
    · subst he
      simp only [update_self]
      refine ⟨by rw [hused, ht]; simp, by simp [hactive, hused], by rw [ht]; exact hplain⟩
    · simpa [he] using h.topics i' hi'
  have htname : t.name = name := by rw [ht]
  by_cases he₁ : i₁ = i <;> by_cases he₂ : i₂ = i <;>
    simp only [he₁, he₂, update_self, ne_eq, not_false_eq_true, update_of_ne, htname] at ha heq ⊢
  · exact absurd (hsame i₂ h₂ heq.symm) he₂
  · exact absurd (hsame i₁ h₁ heq) he₁
  · exact h.names i₁ h₁ i₂ h₂ ha heq

section

variable {name : Text} {c : Int} {i : Nat}

theorem Table.subscribeExact_found (hfind : tb.findTopic name = some i)
    (hadd : (tb.topics i).add c = some t) :
    tb.subscribeExact name c = ({ tb with topics := update tb.topics i t }, true) := by
  simp [subscribeExact, topicFor, hfind, hadd]

theorem Table.subscribeExact_full (hfind : tb.findTopic name = some i)
    (hadd : (tb.topics i).add c = none) : tb.subscribeExact name c = (tb, false) := by
  simp [subscribeExact, topicFor, hfind, hadd]

theorem Table.subscribeExact_none (hfind : tb.findTopic name = none)
    (hidle : (List.range maxTopics).find? (fun i => !(tb.topics i).isActive) = none) :
    tb.subscribeExact name c = (tb, false) := by
  simp [subscribeExact, topicFor, hfind, hidle]

theorem Table.subscribeExact_new (hfind : tb.findTopic name = none)
    (hidle : (List.range maxTopics).find? (fun i => !(tb.topics i).isActive) = some i)
    (hadd : Topic.add ⟨name, (tb.topics i).subs, 0⟩ c = some t) :
    tb.subscribeExact name c = ({ tb with
          topics := update tb.topics i t
          topicCount := tb.topicCount + 1 }, true) := by
  simp [subscribeExact, topicFor, hfind, hidle, hadd]

theorem Table.Sound.subscribeFound (h : tb.Sound subs) (hname : name ≠ [])
    (hplain : isWildcardPattern name = false) (hc : c ≠ unused)
    (hfind : tb.findTopic name = some i) :
    (tb.subscribeExact name c).1.Sound
      (if (tb.subscribeExact name c).2 then (c, name) :: subs else subs) := by
  obtain ⟨hi, ha, hn⟩ := findTopic_some hfind
  have hsame : ∀ i' < maxTopics, (tb.topics i').name = name → i' = i :=
    fun i' hi' he => (h.names i hi i' hi' ha (hn.trans he.symm)).symm
  cases hadd : (tb.topics i).add c with
  | none =>
    rw [subscribeExact_full hfind hadd]
    simpa using h
  | some t =>
    rw [subscribeExact_found hfind hadd, if_pos rfl]
    rcases add_eq_some hadd with ⟨rfl, j, hj, hjc⟩ | ⟨j, hj, hfree, hnot, ht⟩
    · rw [update_eq_self]
      exact h.again (r := .exact i j) (by simp [hi, hj, ha, hjc, hn, hc])
    refine h.setTopic hi hj hc hname hplain hfree hnot hsame (fun _ => hn) ?_
    rw [ht, ← hn, (h.topics i hi).count]

theorem Table.Sound.subscribeNew (h : tb.Sound subs) (hname : name ≠ [])
    (hplain : isWildcardPattern name = false) (hc : c ≠ unused) (hfind : tb.findTopic name = none)
    (hidle : (List.range maxTopics).find? (fun i => !(tb.topics i).isActive) = some i) :
    (tb.subscribeExact name c).1.Sound
      (if (tb.subscribeExact name c).2 then (c, name) :: subs else subs) := by
  obtain ⟨hi, hfound⟩ := find?_range_some hidle
  have ha : (tb.topics i).isActive = false := by simpa using hfound
  have hused : (tb.topics i).used = 0 :=
    Nat.eq_zero_of_not_pos (mt (h.topics i hi).active.mpr (by simp [ha]))
  have hall := (Topic.used_eq_zero _).mp hused
  have hnone : ∀ i' < maxTopics, (tb.topics i').name ≠ name := by
    intro i' hi' he
    have := find?_range_none hfind hi'
    simp [Topic.isActive, he, hname] at this
  obtain ⟨t, hadd⟩ := Option.ne_none_iff_exists'.mp
    (Topic.add_of_unused (t := ⟨name, (tb.topics i).subs, 0⟩) c hall)
  rw [Table.subscribeExact_new hfind hidle hadd, if_pos rfl]
  rcases Topic.add_eq_some hadd with ⟨-, j, hj, hjc⟩ | ⟨j, hj, hfree, hnot, ht⟩
  · exact absurd (hjc.symm.trans (hall j hj)) hc
  refine h.setTopic hi hj hc hname hplain hfree hnot
    (fun i' hi' he => absurd he (hnone i' hi')) (by simp [ha]) ?_
  rw [ht, hused]
  rfl

end

theorem Table.Sound.subscribeExact (h : tb.Sound subs) {name : Text} {c : Int}
    (hname : name ≠ []) (hplain : isWildcardPattern name = false) (hc : c ≠ unused) :
    (tb.subscribeExact name c).1.Sound
      (if (tb.subscribeExact name c).2 then (c, name) :: subs else subs) := by
  cases hfind : tb.findTopic name with
  | some i => exact h.subscribeFound hname hplain hc hfind
  | none =>
    cases hidle : (List.range maxTopics).find? fun i => !(tb.topics i).isActive with
    | some i => exact h.subscribeNew hname hplain hc hfind hidle
    | none =>
      rw [subscribeExact_none hfind hidle]
      exact h

theorem Table.Sound.subscribe (h : tb.Sound subs) {name : Text} {c : Int}
    (hname : name ≠ []) (hc : c ≠ unused) :
    (tb.subscribe name c).1.Sound
      (if (tb.subscribe name c).2 then (c, name) :: subs else subs) := by
  unfold Table.subscribe
  split
  · exact h
  by_cases hw : isWildcardPattern name = true
  · rw [if_pos hw]
    exact h.subscribeWildcard hw hc
  rw [if_neg hw]
  exact h.subscribeExact hname (by simpa using hw) hc

/-! ## Unsubscribing -/

theorem Table.unsubscribeTopic_topics (c : Int) (tb : Table) (i : Nat) :
    (tb.unsubscribeTopic c i).topics = update tb.topics i ((tb.topics i).drop c) := by
  simp only [Table.unsubscribeTopic, Topic.drop]
  split
  · split <;> rfl
  · rw [update_eq_self]

theorem Table.unsubscribeTopic_wildcards (c : Int) (tb : Table) (i : Nat) :
    (tb.unsubscribeTopic c i).wildcards = tb.wildcards := by
  simp only [unsubscribeTopic]
  split
  · split <;> rfl
  · rfl

theorem Table.unsubscribeWildcard_topics (c : Int) (tb : Table) (i : Nat) :
    (tb.unsubscribeWildcard c i).topics = tb.topics := by
  simp only [unsubscribeWildcard]
  split <;> rfl

def WildcardSub.drop (c : Int) (w : WildcardSub) : WildcardSub :=
  if w.componentIdx = c then .new else w

theorem Table.unsubscribeWildcard_wildcards (c : Int) (tb : Table) (i : Nat) :
    (tb.unsubscribeWildcard c i).wildcards = update tb.wildcards i ((tb.wildcards i).drop c) := by
  simp only [Table.unsubscribeWildcard, WildcardSub.drop]
  split
  · rfl
  · rw [update_eq_self]

theorem Table.unsubscribeAll_topics (tb : Table) (c : Int) (hi : i < maxTopics) :
    (tb.unsubscribeAll c).topics i = (tb.topics i).drop c := by
  rw [unsubscribeAll, foldl_frame (unsubscribeWildcard_topics c),
    foldl_range_pointwise (unsubscribeTopic_topics c)]
  exact if_pos hi

theorem Table.unsubscribeAll_wildcards (tb : Table) (c : Int) (hi : i < maxWildcardSubs) :
    (tb.unsubscribeAll c).wildcards i = (tb.wildcards i).drop c := by
  rw [unsubscribeAll, foldl_range_pointwise (unsubscribeWildcard_wildcards c),
    foldl_frame (unsubscribeTopic_wildcards c)]
  exact if_pos hi

theorem Table.owner_unsubscribeAll (h : tb.Sound subs) {c : Int} (hc : c ≠ unused) (r : Slot)
    (x : Sub) : (tb.unsubscribeAll c).owner r = some x ↔ tb.owner r = some x ∧ x.1 ≠ c := by
  cases r with
  | exact i j =>
    rw [Table.owner_exact, Table.owner_exact, and_assoc (c := x.1 ≠ c)]
    refine and_congr_right fun hij => ?_
    rw [Table.unsubscribeAll_topics tb c hij.1]
    exact Topic.drop_sub hc (h.topics i hij.1) hij.2 x
  | wild i =>
    rw [Table.owner_wild, Table.owner_wild, and_assoc]
    refine and_congr_right fun hi => ?_
    rw [Table.unsubscribeAll_wildcards tb c hi]
    simp only [WildcardSub.drop, WildcardSub.sub_eq_some]
    by_cases hw : (tb.wildcards i).componentIdx = c
    · simp [hw, WildcardSub.new, WildcardSub.isActive]
      grind
    simp only [if_neg hw]
    grind

theorem Table.Sound.unsubscribeAll (h : tb.Sound subs) {c : Int} (hc : c ≠ unused) :
    (tb.unsubscribeAll c).Sound (subs.filter fun x => x.1 != c) where
  topics := by
    intro i hi
    rw [Table.unsubscribeAll_topics tb c hi]
    exact (h.topics i hi).drop hc
  wildcards := by
    intro i hi
    rw [Table.unsubscribeAll_wildcards tb c hi, WildcardSub.drop]
    split
    · exact WildcardSub.sound_new
    · exact h.wildcards i hi
  names := by
    intro i hi i' hi' ha heq
    rw [Table.unsubscribeAll_topics tb c hi] at ha heq
    rw [Table.unsubscribeAll_topics tb c hi'] at heq
    have hkept : ∀ t : Topic, (t.drop c).isActive = true →
        t.isActive = true ∧ (t.drop c).name = t.name := by
      intro t ht
      have hname := Topic.remove_name c t
      have hnew : Topic.new.isActive = false := rfl
      unfold Topic.drop at ht ⊢
      grind
    have ha' : ((tb.topics i').drop c).isActive = true := by
      rwa [Topic.isActive, ← heq]
    refine h.names i hi i' hi' (hkept _ ha).1 ?_
    rw [← (hkept _ ha).2, ← (hkept _ ha').2, heq]
  once := h.once.mono fun r x hr => ((Table.owner_unsubscribeAll h hc r x).mp hr).1
  subs := by
    intro x
    simp only [List.mem_filter, h.subs x, Table.owner_unsubscribeAll h hc, bne_iff_ne]
    exact exists_and_right.symm

/-! ## Gathering -/

variable {topic : Text}

theorem Table.findTopic_eq_some (h : tb.Sound subs) : tb.findTopic topic = some i ↔
      i < maxTopics ∧ (tb.topics i).isActive = true ∧ (tb.topics i).name = topic := by
  refine ⟨findTopic_some, ?_⟩
  rintro ⟨hi, ha, hn⟩
  cases hfind : tb.findTopic topic with
  | none =>
    have := find?_range_none hfind hi
    simp [ha, hn] at this
  | some k =>
    obtain ⟨hk, -, hkn⟩ := findTopic_some hfind
    rw [h.names i hi k hk ha (hn.trans hkn.symm)]

def owed (owner : Slot → Option Sub) (topic : Text) (r : Slot) : Bool :=
  (owner r).any fun x => patternMatches x.2 topic

theorem owed_iff {owner : Slot → Option Sub} : owed owner topic r = true ↔
      ∃ x, owner r = some x ∧ patternMatches x.2 topic = true := by
  simp [owed, Option.any_eq_true]

theorem Table.mem_gather (h : tb.Sound subs) {r : Slot} :
    r ∈ tb.gather topic ↔ owed tb.owner topic r = true := by
  rw [owed_iff]
  cases r with
  | exact i j =>
    have hmem : Slot.exact i j ∈ tb.gather topic ↔
        tb.findTopic topic = some i ∧ j < maxSubscribers ∧ (tb.topics i).subs j ≠ unused := by
      rw [Table.gather]
      cases tb.findTopic topic with
      | none => simp
      | some k =>
        simp
        grind
    rw [hmem, Table.findTopic_eq_some h]
    simp only [Table.owner_exact, Topic.sub_eq_some, Prod.exists]
    constructor
    · rintro ⟨⟨hi, ha, hn⟩, hj, hne⟩
      have hplain := (h.topics i hi).plain
      refine ⟨_, _, ⟨⟨hi, hj⟩, ha, rfl, rfl, hne⟩, ?_⟩
      rw [hn] at hplain ⊢
      simp [patternMatches, hplain]
    rintro ⟨c, name, ⟨⟨hi, hj⟩, ha, rfl, rfl, hne⟩, hm⟩
    have hplain := (h.topics i hi).plain
    simp only [patternMatches, hplain, Bool.false_eq_true, if_false, beq_iff_eq] at hm
    exact ⟨⟨hi, ha, hm⟩, hj, hne⟩
  | wild i =>
    have hmem : Slot.wild i ∈ tb.gather topic ↔ i < maxWildcardSubs ∧
        (tb.wildcards i).isActive = true ∧
        (tb.wildcards i).componentIdx ≠ unused ∧
        wildcardMatches (tb.wildcards i).pattern topic = true := by
      rw [Table.gather]
      cases tb.findTopic topic <;> simp [and_assoc]
    rw [hmem]
    simp only [Table.owner_wild, WildcardSub.sub_eq_some, Prod.exists]
    constructor
    · rintro ⟨hi, ha, hne, hm⟩
      refine ⟨_, _, ⟨hi, ha, rfl, rfl, hne⟩, ?_⟩
      rwa [← wildcardMatches_eq ((h.wildcards i hi).pattern ha)]
    rintro ⟨c, name, ⟨hi, ha, rfl, rfl, hne⟩, hm⟩
    rw [← wildcardMatches_eq ((h.wildcards i hi).pattern ha)] at hm
    exact ⟨hi, ha, hne, hm⟩

theorem Table.gather_nodup (tb : Table) (topic : Text) : (tb.gather topic).Nodup := by
  have hwild := (nodup_range (n := maxWildcardSubs)).filter fun i =>
    (tb.wildcards i).isActive && (tb.wildcards i).componentIdx != unused &&
      wildcardMatches (tb.wildcards i).pattern topic
  rw [gather]
  refine List.Nodup.append ?_ (hwild.map fun a b hab => Slot.wild.inj hab) ?_
  · cases tb.findTopic topic with
    | none => exact nodup_nil
    | some i =>
      exact (nodup_range.filter _).map fun a b hab => (Slot.exact.inj hab).2
  intro r hexact hwild
  obtain ⟨k, -, rfl⟩ := mem_map.mp hwild
  cases hfind : tb.findTopic topic <;> simp [hfind] at hexact

theorem Table.count_gather (h : tb.Sound subs) (topic : Text) (r : Slot) :
    (tb.gather topic).count r = (owed tb.owner topic r).toNat := by
  by_cases ho : owed tb.owner topic r = true
  · rw [count_eq_one_of_mem (tb.gather_nodup topic) ((mem_gather h).mpr ho), ho]
    rfl
  rw [count_eq_zero.mpr (mt (mem_gather h).mp ho)]
  simp [ho]

end

end SlmOs.Router
