import SlmOs.Router.Fanout

/-!
# Receiving and acknowledging

`msg_router_receive` notes for each component where its last message is, and
`msg_router_ack` goes there.  Every call runs under the lock, so a run is a sequence of
calls.
-/

namespace SlmOs.Router

open Function Foundation Option Table

/-! ## The calls -/

/-- `MAX_COMPONENTS`, the length of `LAST_RECEIVED`. -/
def maxComponents : Nat := 64

structure Post where
  table : Table
  /-- The message in a mailbox that is `READY_FULL`. -/
  box : Slot → Option Nat
  lastReceived : Int → Option Slot
  /-- The message that each component has received last. -/
  got : Int → Option Nat
  /-- Messages published so far. -/
  sent : Nat

def Post.new : Post := ⟨.new, fun _ => none, fun _ => none, fun _ => none, 0⟩

inductive PostCall where
  | subscribe (name : Text) (c : Int)
  | unsubscribeAll (c : Int)
  | publish (topic : Text)
  /-- Priorities decide which of its full mailboxes a component gets. -/
  | receive (c : Int) (r : Slot)
  | receiveNone (c : Int)
  | ack (c : Int)

def Table.scans (tb : Table) (c : Int) : Slot → Bool
  | .exact i j => decide (i < maxTopics) && decide (j < maxSubscribers) &&
      (tb.topics i).isActive && (tb.topics i).subs j == c
  | .wild i => decide (i < maxWildcardSubs) && (tb.wildcards i).componentIdx == c

def scanned : List Slot :=
  ((List.range maxTopics).flatMap fun i => (List.range maxSubscribers).map (Slot.exact i)) ++
    (List.range maxWildcardSubs).map Slot.wild

def recorded (c : Int) : Bool := decide (0 ≤ c) && decide (c < maxComponents)

def Post.record (s : Post) (c : Int) (r : Option Slot) : Post :=
  if recorded c then
    { s with lastReceived := update s.lastReceived c r }
  else s

/-- `subscribe` clears the mailbox that it gives to the component. -/
def Post.subscribe (s : Post) (name : Text) (c : Int) : Post :=
  let tb := (s.table.subscribe name c).1
  { s with
    table := tb
    box := fun r =>
      match r with
      | .exact i j =>
        if (tb.topics i).subs j = (s.table.topics i).subs j then s.box r else none
      | .wild i =>
        if (tb.wildcards i).isActive = (s.table.wildcards i).isActive then s.box r else none }

/-- The mailboxes of the component are cleared, and all of a topic that is reclaimed. -/
def Post.unsubscribeAll (s : Post) (c : Int) : Post :=
  { s with
    table := s.table.unsubscribeAll c
    box := fun r =>
      match r with
      | .exact i j =>
        if i < maxTopics ∧ (s.table.topics i).isActive = true ∧
          ((s.table.topics i).subs j = c ∨ ((s.table.topics i).remove c).subCount ≤ 0)
        then none else s.box r
      | .wild i =>
        if i < maxWildcardSubs ∧ (s.table.wildcards i).componentIdx = c then none
        else s.box r }

def Post.publish (s : Post) (topic : Text) : Post :=
  { s with
    box := fun r =>
      if r ∈ s.table.gather topic ∧ s.box r = none then some s.sent else s.box r
    sent := s.sent + 1 }

def Post.ack (s : Post) (c : Int) : Post :=
  if recorded c then
    match s.lastReceived c with
    | some r => { s with box := update s.box r none }.record c none
    | none => s
  else s

def postStep (s : Post) : PostCall → Option Post
  | .subscribe name c => some (s.subscribe name c)
  | .unsubscribeAll c => some (s.unsubscribeAll c)
  | .publish topic => some (s.publish topic)
  | .receive c r =>
    if s.table.scans c r ∧ s.box r ≠ none then
      some { s.record c (some r) with got := update s.got c (s.box r) }
    else none
  | .receiveNone c =>
    if ∀ r ∈ scanned, s.table.scans c r → s.box r = none then some (s.record c none)
    else none
  | .ack c => some (s.ack c)

/-- The calls name a topic and a component, and nobody unsubscribes before it has
acknowledged what it received. -/
def PostCall.orderly (s : Post) : PostCall → Prop
  | .subscribe name c => name ≠ [] ∧ c ≠ unused
  | .unsubscribeAll c => c ≠ unused ∧ (recorded c = true → s.lastReceived c = none)
  | _ => True

/-! ## A subscription that stays -/

section

variable {tb : Table} {subs : List Sub} {name : Text} {c : Int}

open Post

theorem Table.subscribeExact_keeps (ha : (tb.topics i).isActive = true)
    (hj : (tb.topics i).subs j ≠ unused) :
    ((tb.subscribeExact name c).1.topics i).name = (tb.topics i).name ∧
      ((tb.subscribeExact name c).1.topics i).subs j = (tb.topics i).subs j := by
  cases hfind : tb.findTopic name with
  | some k =>
    cases hadd : (tb.topics k).add c with
    | none => simp [subscribeExact_full hfind hadd]
    | some t =>
      rw [subscribeExact_found hfind hadd]
      by_cases hik : i = k
      · subst hik
        simp only [update_self]
        rcases Topic.add_eq_some hadd with ⟨rfl, -⟩ | ⟨j', -, hfree, -, rfl⟩
        · exact ⟨rfl, rfl⟩
        have hne : j ≠ j' := fun e => hj (e ▸ hfree)
        simp [hne]
      · simp [hik]
  | none =>
    cases hidle : (List.range maxTopics).find? fun i => !(tb.topics i).isActive with
    | none => simp [subscribeExact_none hfind hidle]
    | some k =>
      have hik : i ≠ k := by
        rintro rfl
        simpa [ha] using (find?_range_some hidle).2
      simp only [subscribeExact, topicFor, hfind, hidle]
      split <;> simp [hik]

theorem Table.subscribeWildcard_keeps (ha : (tb.wildcards i).isActive = true) :
    (tb.subscribeWildcard name c).1.wildcards i = tb.wildcards i := by
  unfold subscribeWildcard
  split
  · rfl
  split
  · rename_i k hfind
    have hik : i ≠ k := by
      rintro rfl
      simpa [ha] using (find?_range_some hfind).2
    simp [hik]
  · rfl

@[simp] theorem Table.subscribeWildcard_topics :
    (tb.subscribeWildcard name c).1.topics = tb.topics := by
  unfold subscribeWildcard
  split
  · rfl
  · split <;> rfl

@[simp] theorem Table.subscribeExact_wildcards :
    (tb.subscribeExact name c).1.wildcards = tb.wildcards := by
  simp only [subscribeExact, topicFor]
  grind

end

variable {s s' : Post} {c : Int} {name : Text} {r : Slot} {m : Nat}

def Post.Waiting (s : Post) (r : Slot) (c : Int) (m : Nat) : Prop :=
  (∃ name, s.table.owner r = some (c, name)) ∧ s.box r = some m

theorem Post.Waiting.subscribe (h : s.Waiting r c m) (d : Int) :
    (s.subscribe name d).Waiting r c m := by
  obtain ⟨⟨n, hown⟩, hbox⟩ := h
  cases r with
  | exact i j =>
    obtain ⟨hij, hsub⟩ := Table.owner_exact.mp hown
    obtain ⟨ha, hc, hn, hne⟩ := Topic.sub_eq_some.mp hsub
    have hkeep : ((s.table.subscribe name d).1.topics i).name = (s.table.topics i).name ∧
        ((s.table.subscribe name d).1.topics i).subs j = (s.table.topics i).subs j := by
      unfold Table.subscribe
      split
      · exact ⟨rfl, rfl⟩
      split
      · rw [Table.subscribeWildcard_topics]
        exact ⟨rfl, rfl⟩
      · exact Table.subscribeExact_keeps ha (hc ▸ hne)
    refine ⟨⟨n, Table.owner_exact.mpr ⟨hij, Topic.sub_eq_some.mpr ⟨?_, ?_, ?_, hne⟩⟩⟩, ?_⟩
    · rw [Topic.isActive, Post.subscribe, hkeep.1]
      exact ha
    · exact hkeep.2.trans hc
    · exact hkeep.1.trans hn
    · simpa only [Post.subscribe, hkeep.2, if_true] using hbox
  | wild i =>
    obtain ⟨hi, hsub⟩ := Table.owner_wild.mp hown
    have ha := (WildcardSub.sub_eq_some.mp hsub).1
    have hkeep : (s.table.subscribe name d).1.wildcards i = s.table.wildcards i := by
      unfold Table.subscribe
      split
      · rfl
      split
      · exact Table.subscribeWildcard_keeps ha
      · rw [Table.subscribeExact_wildcards]
    refine ⟨⟨n, Table.owner_wild.mpr ⟨hi, ?_⟩⟩, ?_⟩
    · simpa only [Post.subscribe, hkeep] using hsub
    · simpa only [Post.subscribe, hkeep, if_true] using hbox

variable {d : Int}

theorem Post.Waiting.unsubscribeAll (h : s.Waiting r c m) (hs : s.table.Sound subs)
    (hd : d ≠ unused) (hcd : c ≠ d) : (s.unsubscribeAll d).Waiting r c m := by
  obtain ⟨⟨n, hown⟩, hbox⟩ := h
  have hown' : (s.table.unsubscribeAll d).owner r = some (c, n) :=
    (owner_unsubscribeAll hs hd r _).mpr ⟨hown, hcd⟩
  refine ⟨⟨n, hown'⟩, ?_⟩
  cases r with
  | exact i j =>
    obtain ⟨⟨hi, hj⟩, hsub⟩ := owner_exact.mp hown
    obtain ⟨ha, hc, -, -⟩ := Topic.sub_eq_some.mp hsub
    -- the topic still has a subscriber
    have hleft : ¬ ((s.table.topics i).remove d).subCount ≤ 0 := by
      intro hgone
      have hnew := (owner_exact.mp hown').2
      rw [unsubscribeAll_topics _ _ hi, Topic.drop, if_pos ha, if_pos hgone] at hnew
      cases hnew
    rw [Post.unsubscribeAll]
    simp only [hc, hcd, hleft, or_false, and_false, if_false]
    exact hbox
  | wild i =>
    obtain ⟨hi, hsub⟩ := owner_wild.mp hown
    have hc := (WildcardSub.sub_eq_some.mp hsub).2.1
    rw [Post.unsubscribeAll]
    simp only [hc, hcd, and_false, if_false]
    exact hbox

theorem Post.Waiting.publish (h : s.Waiting r c m) (topic : Text) :
    (s.publish topic).Waiting r c m := by
  refine ⟨h.1, ?_⟩
  simp [Post.publish, h.2]

/-! ## What is recorded -/

/-- The place that is recorded for a component holds what it received last. -/
structure Post.Faithful (s : Post) : Prop where
  sound : ∃ subs, s.table.Sound subs
  last : ∀ c r, recorded c = true → s.lastReceived c = some r →
    ∃ m, s.got c = some m ∧ s.Waiting r c m

@[simp] theorem Post.record_table (r : Option Slot) : (s.record c r).table = s.table := by
  unfold Post.record
  split <;> rfl

@[simp] theorem Post.record_box (r : Option Slot) : (s.record c r).box = s.box := by
  unfold Post.record
  split <;> rfl

theorem Table.owner_of_scans {tb : Table} {subs : List Sub} (hs : tb.Sound subs)
    (hc : c ≠ unused) (h : tb.scans c r = true) : ∃ n, tb.owner r = some (c, n) := by
  cases r with
  | exact i j =>
    simp only [scans, Bool.and_eq_true, decide_eq_true_eq, beq_iff_eq] at h
    obtain ⟨⟨⟨hi, hj⟩, ha⟩, hsub⟩ := h
    exact ⟨(tb.topics i).name, by simp [hi, hj, ha, hsub, hc]⟩
  | wild i =>
    simp only [scans, Bool.and_eq_true, decide_eq_true_eq, beq_iff_eq] at h
    have ha := (hs.wildcards i h.1).inUse.mpr (h.2 ▸ hc)
    exact ⟨(tb.wildcards i).pattern, by simp [h, ha, hc]⟩

variable {e : PostCall}

theorem nothing_received (hstep : postStep s (.receiveNone c) = some s') :
    s' = s.record c none := by
  simp only [postStep, ite_none_right_eq_some, some.injEq] at hstep
  exact hstep.2.symm

theorem Post.Waiting.step (h : s.Waiting r c m) (hf : s.Faithful)
    (hok : e.orderly s) (hstep : postStep s e = some s') (hack : e ≠ .ack c)
    (hout : e ≠ .unsubscribeAll c) : s'.Waiting r c m := by
  cases e with
  | subscribe name d =>
    cases hstep
    exact h.subscribe d
  | unsubscribeAll d =>
    cases hstep
    obtain ⟨subs, hs⟩ := hf.sound
    exact h.unsubscribeAll hs hok.1 fun e => hout (e ▸ rfl)
  | publish topic =>
    cases hstep
    exact h.publish topic
  | receive d r' =>
    simp only [postStep, ite_none_right_eq_some, some.injEq] at hstep
    obtain ⟨-, rfl⟩ := hstep
    simpa only [Post.Waiting, record_table, record_box] using h
  | receiveNone d =>
    obtain rfl := nothing_received hstep
    simpa only [Post.Waiting, record_table, record_box] using h
  | ack d =>
    cases hstep
    have hcd : c ≠ d := fun e => hack (e ▸ rfl)
    unfold Post.ack
    split
    · rename_i hd
      split
      · rename_i r' hlast
        obtain ⟨m', -, ⟨n', hown'⟩, -⟩ := hf.last d r' hd hlast
        obtain ⟨⟨n, hown⟩, hbox⟩ := h
        have hne : r ≠ r' := by
          rintro rfl
          exact hcd (congrArg Prod.fst (some.inj (hown.symm.trans hown')))
        refine ⟨⟨n, by simpa only [record_table] using hown⟩, ?_⟩
        simpa only [record_box, update_of_ne hne] using hbox
      · exact h
    · exact h

theorem Post.record_last_self (hc : recorded c = true) (r : Option Slot) :
    (s.record c r).lastReceived c = r := by
  simp [Post.record, hc]

theorem Post.record_last_of_ne (hne : d ≠ c) (r : Option Slot) :
    (s.record c r).lastReceived d = s.lastReceived d := by
  unfold Post.record
  split
  · exact update_of_ne hne ..
  · rfl

@[simp] theorem Post.record_got (r : Option Slot) : (s.record c r).got = s.got := by
  unfold Post.record
  split <;> rfl

theorem recorded_ne_unused (hc : recorded c = true) : c ≠ unused := by
  rintro rfl
  cases hc

theorem Post.Faithful.sound_step (h : s.Faithful) (hok : e.orderly s)
    (hstep : postStep s e = some s') : ∃ subs, s'.table.Sound subs := by
  obtain ⟨subs, hs⟩ := h.sound
  cases e with
  | subscribe name d =>
    cases hstep
    exact ⟨_, hs.subscribe hok.1 hok.2⟩
  | unsubscribeAll d =>
    cases hstep
    exact ⟨_, hs.unsubscribeAll hok.1⟩
  | publish topic =>
    cases hstep
    exact ⟨subs, hs⟩
  | receive d r =>
    simp only [postStep, ite_none_right_eq_some, some.injEq] at hstep
    obtain ⟨-, rfl⟩ := hstep
    exact ⟨subs, by simpa using hs⟩
  | receiveNone d =>
    obtain rfl := nothing_received hstep
    exact ⟨subs, by simpa using hs⟩
  | ack d =>
    cases hstep
    refine ⟨subs, ?_⟩
    unfold Post.ack
    split
    · split
      · simpa using hs
      · exact hs
    · exact hs

theorem Post.ack_last (hc : recorded c = true) : (s.ack c).lastReceived c = none := by
  simp only [Post.ack, hc, if_true]
  split
  · exact record_last_self hc none
  · assumption

theorem Post.ack_last_of_ne (hne : d ≠ c) : (s.ack c).lastReceived d = s.lastReceived d := by
  unfold Post.ack
  split
  · split
    · exact record_last_of_ne hne none
    · rfl
  · rfl

theorem Post.ack_got : (s.ack c).got = s.got := by
  unfold Post.ack
  split
  · split
    · exact record_got none
    · rfl
  · rfl

def PostCall.caller : PostCall → Option Int
  | .unsubscribeAll c => some c
  | .receive c _ => some c
  | .receiveNone c => some c
  | .ack c => some c
  | _ => none

theorem last_of_other (he : e.caller ≠ some c) (hstep : postStep s e = some s') :
    s'.lastReceived c = s.lastReceived c ∧ s'.got c = s.got c := by
  cases e with
  | subscribe name d | unsubscribeAll d | publish topic => cases hstep; exact ⟨rfl, rfl⟩
  | receive d r =>
    have hne : c ≠ d := fun h => he (congrArg some h.symm)
    simp only [postStep, ite_none_right_eq_some, some.injEq] at hstep
    obtain ⟨-, rfl⟩ := hstep
    exact ⟨Post.record_last_of_ne hne _, update_of_ne hne ..⟩
  | receiveNone d =>
    obtain rfl := nothing_received hstep
    exact ⟨Post.record_last_of_ne (fun h => he (congrArg some h.symm)) _, by simp⟩
  | ack d =>
    cases hstep
    exact ⟨Post.ack_last_of_ne fun h => he (congrArg some h.symm), by rw [Post.ack_got]⟩

theorem received (hstep : postStep s (.receive c r) = some s') :
    (recorded c = true → s'.lastReceived c = some r) ∧ s'.got c = s.box r ∧
      s'.box = s.box ∧ s'.table = s.table ∧ s.table.scans c r = true ∧ s.box r ≠ none := by
  simp only [postStep, ite_none_right_eq_some, some.injEq] at hstep
  obtain ⟨⟨hscan, hfull⟩, rfl⟩ := hstep
  exact ⟨fun hc => Post.record_last_self hc _, by simp, by simp, by simp, hscan, hfull⟩

theorem recorded_before (hc : recorded c = true)
    (hstep : postStep s e = some s') (hlast : s'.lastReceived c = some r) :
    (s.lastReceived c = some r ∧ s'.got c = s.got c ∧ e ≠ .ack c) ∨ e = .receive c r := by
  by_cases he : e.caller = some c
  · cases e with
    | subscribe name d | publish topic => cases he
    | unsubscribeAll d =>
      cases hstep
      exact .inl ⟨hlast, rfl, nofun⟩
    | receive d r' =>
      cases he
      obtain rfl := some.inj (((received hstep).1 hc).symm.trans hlast)
      exact .inr rfl
    | receiveNone d =>
      cases he
      obtain rfl := nothing_received hstep
      cases (Post.record_last_self hc _).symm.trans hlast
    | ack d =>
      cases he
      cases hstep
      cases (Post.ack_last hc).symm.trans hlast
  obtain ⟨hsame, hgot⟩ := last_of_other he hstep
  exact .inl ⟨hsame.symm.trans hlast, hgot, fun h => he (h ▸ rfl)⟩

theorem Post.Faithful.step (h : s.Faithful) (hok : e.orderly s)
    (hstep : postStep s e = some s') : s'.Faithful where
  sound := h.sound_step hok hstep
  last := by
    intro c r hc hlast
    rcases recorded_before hc hstep hlast with ⟨hold, hgot, hack⟩ | rfl
    · obtain ⟨m, hm, hwait⟩ := h.last c r hc hold
      refine ⟨m, hgot.trans hm, hwait.step h hok hstep hack ?_⟩
      rintro rfl
      cases hold.symm.trans (hok.2 hc)
    obtain ⟨-, hgot, hbox, htable, hscan, hfull⟩ := received hstep
    obtain ⟨m, hm⟩ := ne_none_iff_exists'.mp hfull
    obtain ⟨subs, hs⟩ := h.sound
    obtain ⟨n, hown⟩ := owner_of_scans hs (recorded_ne_unused hc) hscan
    exact ⟨m, hgot.trans hm, ⟨n, by rw [htable, hown]⟩, by rw [hbox, hm]⟩

theorem faithful_run (hrun : Run postStep (fun s e => e.orderly s) Post.new s) : s.Faithful :=
  Run.invariant (fun _ _ _ h hok hstep => Post.Faithful.step h hok hstep)
    ⟨⟨[], sound_new⟩, fun _ _ _ h => by cases h⟩ hrun

theorem Post.ack_box (hc : recorded c = true) (hlast : s.lastReceived c = some r) :
    (s.ack c).box = update s.box r none := by
  simp [Post.ack, hc, hlast]

/-- In every run whose calls are orderly, an acknowledgement changes no mailbox but the
one that the component has and that holds what it received last. -/
theorem ack_clears_own (hrun : Run postStep (fun s e => e.orderly s) Post.new s) (c : Int)
    (r : Slot) (hr : (s.ack c).box r ≠ s.box r) :
    (∃ name, s.table.owner r = some (c, name)) ∧ ∃ m, s.box r = some m ∧ s.got c = some m := by
  by_cases hc : recorded c = true
  · cases hlast : s.lastReceived c with
    | none => simp [Post.ack, hc, hlast] at hr
    | some r' =>
      rw [Post.ack_box hc hlast] at hr
      obtain rfl : r = r' := by
        by_contra hne
        exact hr (update_of_ne hne ..)
      obtain ⟨m, hgot, hown, hbox⟩ := (faithful_run hrun).last c r hc hlast
      exact ⟨hown, m, hbox, hgot⟩
  · simp [Post.ack, hc] at hr

def helloCalls : List PostCall :=
  [.subscribe exactName 0, .publish exactName, .receive 0 (.exact 0 0)]

theorem ack_clears_own_hello : ∃ s, Run postStep (fun s e => e.orderly s) Post.new s ∧
    (s.ack 0).box (.exact 0 0) ≠ s.box (.exact 0 0) ∧
    ∃ name, s.table.owner (.exact 0 0) = some (0, name) := by
  have hexec : ((exec postStep Post.new helloCalls).map fun s =>
      (s.box (.exact 0 0), (s.ack 0).box (.exact 0 0))) = some (some 0, none) := by
    decide +kernel
  obtain ⟨s, hs, hbox⟩ := map_eq_some_iff.mp hexec
  have hrun : Run postStep (fun s e => e.orderly s) Post.new s := run_of_exec _ _ _ _ _
      (Along.of_mem (by simp [helloCalls, PostCall.orderly, exactName, unused]) _) hs
  have hne : (s.ack 0).box (.exact 0 0) ≠ s.box (.exact 0 0) := by
    obtain ⟨hfull, hidle⟩ := Prod.mk.inj hbox
    simp [hfull, hidle]
  exact ⟨s, hrun, hne, (ack_clears_own hrun 0 _ hne).1⟩

/-- A component unsubscribes before it acknowledges, and another takes its place. -/
theorem ack_clears_other :
    ((exec postStep Post.new (helloCalls ++ [.unsubscribeAll 0, .subscribe exactName 1,
      .publish exactName])).map fun s => (s.table.owner (.exact 0 0), s.box (.exact 0 0),
        (s.ack 0).box (.exact 0 0))) = some (some (1, exactName), some 1, none) := by
  decide +kernel

/-! ## Indices without a record -/

theorem recorded_iff : recorded c = true ↔ 0 ≤ c ∧ c < maxComponents := by
  simp [recorded]

theorem Post.ack_frees (hlast : recorded c = true → s.lastReceived c = some r)
    (hbox : s.box r ≠ none) : (s.ack c).box r = none ↔ recorded c = true := by
  constructor
  · intro hnone
    by_contra hc
    rw [Post.ack, if_neg hc] at hnone
    exact hbox hnone
  intro hc
  rw [ack_box hc (hlast hc), update_self]

/-- Acknowledging what was received frees its mailbox exactly if the index of the
component is below 64 and not negative: at once, and after any calls of others. -/
theorem ack_frees_iff (c : Int) (r : Slot) {s s₁ : Post}
    (hrecv : postStep s (.receive c r) = some s₁) :
    ((s₁.ack c).box r = none ↔ 0 ≤ c ∧ c < maxComponents) ∧
    (Run postStep (fun s e => e.orderly s) Post.new s → c ≠ unused → ∀ s₂,
      Run postStep (fun s e => e.orderly s ∧ e.caller ≠ some c) s₁ s₂ →
        ((s₂.ack c).box r = none ↔ 0 ≤ c ∧ c < maxComponents)) := by
  obtain ⟨hlast, -, hbox, htable, hscan, hfull⟩ := received hrecv
  rw [← recorded_iff]
  refine ⟨Post.ack_frees hlast (hbox ▸ hfull), fun hrun hc s₂ hmid => ?_⟩
  have hf := faithful_run hrun
  obtain ⟨m, hm⟩ := ne_none_iff_exists'.mp hfull
  obtain ⟨subs, hs⟩ := hf.sound
  obtain ⟨n, hown⟩ := Table.owner_of_scans hs hc hscan
  have hinv := Run.invariant (I := fun s => s.Faithful ∧ s.Waiting r c m ∧
      (recorded c = true → s.lastReceived c = some r))
    (fun s e s' h hok hstep => ⟨h.1.step hok.1 hstep,
      h.2.1.step h.1 hok.1 hstep (fun e => hok.2 (e ▸ rfl)) (fun e => hok.2 (e ▸ rfl)),
      fun hr => (last_of_other hok.2 hstep).1.trans (h.2.2 hr)⟩)
    ⟨hf.step (e := .receive c r) trivial hrecv, ⟨⟨n, by rw [htable, hown]⟩, by rw [hbox, hm]⟩,
      hlast⟩ hmid
  exact Post.ack_frees hinv.2.2 (by rw [hinv.2.1.2]; nofun)

theorem ack_frees_iff_hello : ∃ s s₁, postStep s (.receive 0 (.exact 0 0)) = some s₁ ∧
    (s₁.ack 0).box (.exact 0 0) = none := by
  have hsome : (postStep ((Post.new.subscribe exactName 0).publish exactName)
      (.receive 0 (.exact 0 0))).isSome = true := by decide +kernel
  obtain ⟨s₁, hrecv⟩ := isSome_iff_exists.mp hsome
  exact ⟨_, s₁, hrecv, (ack_frees_iff 0 _ hrecv).1.mpr (by decide)⟩

/-- A task whose number is 64 keeps its mailbox full. -/
theorem ack_without_record : ((exec postStep Post.new [.subscribe exactName 64, .publish exactName,
      .receive 64 (.exact 0 0), .ack 64]).map fun s => s.box (.exact 0 0)) = some (some 0) := by
  decide +kernel

end SlmOs.Router
