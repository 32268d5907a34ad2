import SlmOs.Router.Fanout

/-!
# The redundant fields of the tables

`TOPIC_COUNT`, `sub_count` and the marks of unused places agree as long as no call uses
an empty name or the index of an unused place.
-/

namespace SlmOs.Router

open Foundation Table Topic List Option

def Table.active (tb : Table) : Nat :=
  (range maxTopics).countP fun i => (tb.topics i).isActive

structure Table.Consistent (tb : Table) : Prop where
  topicCount : tb.topicCount = tb.active
  subCount : ∀ i < maxTopics, (tb.topics i).subCount = (tb.topics i).used
  inactive : ∀ i < maxTopics, (tb.topics i).isActive = false →
    ∀ j < maxSubscribers, (tb.topics i).subs j = unused
  names : ∀ i < maxTopics, (tb.topics i).isActive = true → (tb.topics i).name ≠ [] ∧
    ∀ i' < maxTopics, (tb.topics i').name = (tb.topics i).name → i' = i
  once : ∀ i < maxTopics, ∀ j < maxSubscribers, ∀ j' < maxSubscribers,
    (tb.topics i).subs j ≠ unused → (tb.topics i).subs j' = (tb.topics i).subs j → j' = j

section

variable {tb : Table} {name : Text} {c : Int} {i : Nat}

theorem Table.active_congr {tb' : Table}
    (h : ∀ i, (tb'.topics i).isActive = (tb.topics i).isActive) : tb'.active = tb.active := by
  simp only [active, h]

theorem Table.active_succ (tb tb' : Table) (hi : i < maxTopics)
    (hold : (tb.topics i).isActive = false) (hnew : (tb'.topics i).isActive = true)
    (hother : ∀ i' ≠ i, tb'.topics i' = tb.topics i') : tb'.active = tb.active + 1 :=
  countP_succ (b := i) (p := fun i => (tb.topics i).isActive) hold hnew
    (fun i' hi' => by rw [hother i' hi']) nodup_range (mem_range.mpr hi)

theorem Table.subscribeWildcard_count (h : tb.topicCount = tb.active) :
    (tb.subscribeWildcard name c).1.topicCount = (tb.subscribeWildcard name c).1.active := by
  unfold subscribeWildcard
  split
  · exact h
  split <;> exact h

theorem Table.topicFor_count (hname : name ≠ []) (h : tb.topicCount = tb.active) :
    (tb.topicFor name).1.topicCount = (tb.topicFor name).1.active := by
  unfold topicFor
  split
  · exact h
  split
  · rename_i i hfind
    obtain ⟨hi, hidle⟩ := find?_range_some hfind
    rw [active_succ tb _ hi (by simpa using hidle)]
    · simp [h]
    · simp [isActive, hname]
    intro i' hi'
    simp [hi']
  · exact h

theorem Topic.add_name {t t' : Topic} (h : t.add c = some t') : t'.name = t.name := by
  rcases add_eq_some h with ⟨rfl, -⟩ | ⟨j, -, -, -, rfl⟩ <;> rfl

theorem Table.subscribeExact_count (hname : name ≠ []) (h : tb.topicCount = tb.active) :
    (tb.subscribeExact name c).1.topicCount = (tb.subscribeExact name c).1.active := by
  have hfor := topicFor_count hname h
  unfold subscribeExact
  split
  · rename_i heq
    rwa [heq] at hfor
  rename_i tb' i heq
  rw [heq] at hfor
  split
  · rename_i t hadd
    refine hfor.trans (congrArg Nat.cast (active_congr fun i' => ?_)).symm
    by_cases hi : i' = i
    · subst hi
      simp [isActive, add_name hadd]
    · simp [hi]
  · exact hfor

theorem Table.subscribe_count (hname : name ≠ []) (h : tb.topicCount = tb.active) :
    (tb.subscribe name c).1.topicCount = (tb.subscribe name c).1.active := by
  unfold subscribe
  split
  · exact h
  split
  · exact subscribeWildcard_count h
  · exact subscribeExact_count hname h

theorem Table.unsubscribeTopic_count (hi : i < maxTopics) (h : tb.topicCount = tb.active) :
    (tb.unsubscribeTopic c i).topicCount = (tb.unsubscribeTopic c i).active := by
  unfold unsubscribeTopic
  split
  · rename_i ha
    dsimp only
    split
    · have hless := active_succ { tb with topics := Function.update tb.topics i .new } tb hi
        (by simp [Topic.new, isActive]) ha (fun i' hi' => by simp [hi'])
      rw [h, hless]
      simp [active]
    refine h.trans (congrArg Nat.cast (active_congr fun i' => ?_)).symm
    by_cases hi' : i' = i
    · subst hi'
      simp [isActive, remove_name]
    · simp [hi']
  · exact h

theorem Table.unsubscribeAll_count (h : tb.topicCount = tb.active) :
    (tb.unsubscribeAll c).topicCount = (tb.unsubscribeAll c).active := by
  have htopics : ∀ l : List Nat, (∀ i ∈ l, i < maxTopics) → ∀ tb : Table,
      tb.topicCount = tb.active →
      (l.foldl (unsubscribeTopic c) tb).topicCount = (l.foldl (unsubscribeTopic c) tb).active := by
    intro l hl
    induction l with
    | nil => exact fun _ h => h
    | cons i l ih =>
      intro tb h
      exact ih (fun j hj => hl j (mem_cons_of_mem _ hj)) _
        (unsubscribeTopic_count (hl i mem_cons_self) h)
  have hwild : ∀ (tb : Table) (i : Nat),
      (tb.unsubscribeWildcard c i).topicCount = tb.topicCount := by
    intro tb i
    unfold unsubscribeWildcard
    split <;> rfl
  have h' := htopics _ (fun i hi => mem_range.mp hi) tb h
  rw [unsubscribeAll, foldl_frame hwild, h']
  refine congrArg Nat.cast (active_congr fun i => ?_).symm
  rw [foldl_frame (unsubscribeWildcard_topics c)]

end

theorem topicCount_step (h : s.table.topicCount = s.table.active) (hm : m.proper = true)
    (hstep : netStep s m = some s') : s'.table.topicCount = s'.table.active := by
  cases m with
  | init =>
    cases hstep
    rfl
  | subscribe name c =>
    cases hstep
    simp only [Move.proper, Bool.and_eq_true, Bool.not_eq_true', isEmpty_eq_false_iff] at hm
    exact subscribe_count hm.1 h
  | unsubscribeAll c =>
    cases hstep
    exact unsubscribeAll_count h
  | publish q topic =>
    simp only [netStep, ite_none_right_eq_some, some.injEq] at hstep
    exact hstep.2 ▸ h
  | deliver q | abandon q =>
    simp only [netStep] at hstep
    split at hstep
    · simp only [ite_none_right_eq_some, ite_none_left_eq_some, some.injEq] at hstep
      exact hstep.2 ▸ h
    · cases hstep
  | mailbox r v =>
    cases hstep
    exact h

/-- In every interleaving of calls that use neither an empty name nor the index `-1` the
tables are consistent. -/
theorem tables_consistent {s : Net}
    (hrun : Run netStep (fun _ m => m.proper = true) Net.new s) : s.table.Consistent := by
  have hs := (fair_run hrun).table
  have hcount := Run.invariant (I := fun s : Net => s.table.topicCount = s.table.active)
    (fun _ _ _ h hm hstep => topicCount_step h hm hstep) rfl hrun
  refine ⟨hcount, fun i hi => (hs.topics i hi).count, fun i hi ha => ?_, fun i hi ha => ?_, ?_⟩
  · refine (used_eq_zero _).mp (Nat.eq_zero_of_not_pos (mt (hs.topics i hi).active.mpr ?_))
    simp [ha]
  · refine ⟨by simpa [isActive] using ha, fun i' hi' he => ?_⟩
    exact (hs.names i hi i' hi' ha he.symm).symm
  intro i hi j hj j' hj' hused he
  have ha := (hs.topics i hi).active.mpr
    (countP_pos_iff.mpr ⟨j, mem_range.mpr hj, by simpa using hused⟩)
  have hown : ∀ k < maxSubscribers, (s.table.topics i).subs k = (s.table.topics i).subs j →
      s.table.owner (.exact i k) = some ((s.table.topics i).subs j, (s.table.topics i).name) := by
    intro k hk hkj
    simp [hi, hk, ha, hkj, hused]
  simpa using hs.once _ _ _ (hown j' hj' he) (hown j hj rfl)

theorem tables_consistent_overlap : ∃ s : Net, s.table.topicCount = 1 ∧ s.table.Consistent := by
  have hexec : ((exec netStep Net.new overlap).map fun s => s.table.topicCount) = some 1 := by
    decide +kernel
  obtain ⟨s, hs, hcount⟩ := map_eq_some_iff.mp hexec
  have hproper : ∀ m ∈ overlap, m.proper = true := by decide
  exact ⟨s, hcount, tables_consistent
    (run_of_exec _ _ _ _ _ (Along.of_mem (fun m hm _ => hproper m hm) _) hs)⟩

/-- A component subscribes to the empty name, and its place is used in a topic that is
not active. -/
theorem empty_name_inconsistent : ∃ s : Net,
    netStep Net.new (.subscribe [] 0) = some s ∧ ¬ s.table.Consistent := by
  refine ⟨_, rfl, fun h => ?_⟩
  exact absurd (h.inactive 0 (by decide) (by decide +kernel) 0 (by decide)) (by decide +kernel)

end SlmOs.Router
