import SlmOs.Router.Subscriptions

/-!
# Publishing while others subscribe and unsubscribe

A publisher keeps the mailboxes it has gathered when it lets go of the lock.  Over
every interleaving each of them stays in exactly one of three states: it has got the
message, it was given up as busy, or its turn is still to come.
-/

namespace SlmOs.Router

open Function Foundation Net Option

structure Call.Fair (call : Call) : Prop where
  once : Exclusive fun r x => call.owners r = some x
  subs : ∀ x, x ∈ call.subs ↔ ∃ r, call.owners r = some x
  count : ∀ r, call.placed.count r + call.skipped.count r + call.targets.count r =
    (owed call.owners call.topic r).toNat

structure Net.Fair (s : Net) : Prop where
  table : s.table.Sound s.subs
  calls : ∀ p call, s.calls p = some call → call.Fair

section

variable {s s' : Net} {p : Nat}

theorem Net.Fair.setCall (h : s.Fair) (hcall : call.Fair) : (s.setCall p call).Fair where
  table := h.table
  calls := by
    intro q call' hq
    by_cases hqp : q = p
    · subst hqp
      simp only [setCall, update_self, some.injEq] at hq
      rwa [← hq]
    simp only [Net.setCall, update_of_ne hqp] at hq
    exact h.calls q call' hq

theorem Net.Fair.publish (h : s.Fair) (topic : Text) :
    Call.Fair ⟨topic, s.table.gather topic, [], [], s.table.owner, s.subs⟩ where
  once := h.table.once
  subs := h.table.subs
  count := fun r => by simpa using Table.count_gather h.table topic r

theorem Call.Fair.pass {call call' : Call} (h : call.Fair) (htopic : call'.topic = call.topic)
    (howners : call'.owners = call.owners) (hsubs : call'.subs = call.subs)
    (hcount : ∀ r, call'.placed.count r + call'.skipped.count r + call'.targets.count r =
      call.placed.count r + call.skipped.count r + call.targets.count r) :
    call'.Fair where
  once := by rw [howners]; exact h.once
  subs := by rw [howners, hsubs]; exact h.subs
  count := fun r => by rw [hcount, htopic, howners]; exact h.count r

theorem Net.Fair.step (h : s.Fair) {m : Move} (hm : m.proper = true)
    (hstep : netStep s m = some s') : s'.Fair := by
  cases m with
  | init =>
    cases hstep
    exact ⟨Table.sound_new, h.calls⟩
  | subscribe name c =>
    cases hstep
    simp only [Move.proper, Bool.and_eq_true, bne_iff_ne, Bool.not_eq_true',
      List.isEmpty_eq_false_iff] at hm
    exact ⟨h.table.subscribe hm.1 hm.2, h.calls⟩
  | unsubscribeAll c =>
    cases hstep
    exact ⟨h.table.unsubscribeAll (by simpa [Move.proper] using hm), h.calls⟩
  | publish q topic =>
    simp only [netStep, ite_none_right_eq_some, some.injEq] at hstep
    rw [← hstep.2]
    exact h.setCall (h.publish topic)
  | deliver q =>
    simp only [netStep] at hstep
    split at hstep
    · rename_i topic r rest placed skipped owners subs hcall
      simp only [ite_none_right_eq_some, some.injEq] at hstep
      rw [← hstep.2]
      have hready : Net.Fair { s with ready := update s.ready r .full } := ⟨h.table, h.calls⟩
      refine hready.setCall ((h.calls q _ hcall).pass rfl rfl rfl fun r' => ?_)
      simp only [List.count_cons]
      omega
    · cases hstep
  | abandon q =>
    simp only [netStep] at hstep
    split at hstep
    · rename_i hcall
      simp only [ite_none_left_eq_some, some.injEq] at hstep
      rw [← hstep.2]
      refine h.setCall ((h.calls q _ hcall).pass rfl rfl rfl fun r' => ?_)
      simp only [List.count_cons]
      omega
    · cases hstep
  | mailbox r v =>
    cases hstep
    exact ⟨h.table, h.calls⟩

theorem fair_new : new.Fair := ⟨Table.sound_new, nofun⟩

theorem fair_run (hrun : Run netStep (fun _ m => m.proper = true) new s) : s.Fair :=
  Run.invariant (fun _ _ _ h hm hstep => Net.Fair.step h hm hstep) fair_new hrun

end

/-- In every run a message is placed only in mailboxes that, when the publisher
gathered its targets, belonged to a subscription that matches the topic.  Each such
subscription had one mailbox, which is reached exactly once, and which gets the
message if it is idle when its turn comes. -/
theorem placed_once_per_subscription {s : Net}
    (hrun : Run netStep (fun _ m => m.proper = true) new s) {p : Nat} {call : Call}
    (hcall : s.calls p = some call) :
    (∀ r ∈ call.placed, call.placed.count r = 1 ∧ ∃ x ∈ call.subs, call.owners r = some x ∧
        patternMatches x.2 call.topic = true) ∧
    (∀ x ∈ call.subs, patternMatches x.2 call.topic = true →
      ∃ r, (∀ r', call.owners r' = some x ↔ r' = r) ∧
        call.placed.count r + call.skipped.count r + call.targets.count r = 1) ∧
    ∀ r rest, call.targets = r :: rest → s.ready r = .idle → netStep s (.abandon p) = none ∧
        ∃ s', netStep s (.deliver p) = some s' ∧ s'.calls p = some { call with
            targets := rest, placed := r :: call.placed } := by
  have h := (fair_run hrun).calls p call hcall
  refine ⟨fun r hr => ?_, fun x hx hmatch => ?_, fun r rest htargets hidle => ?_⟩
  · have hpos := List.count_pos_iff.mpr hr
    have hcount := h.count r
    have hle := Bool.toNat_le (owed call.owners call.topic r)
    have howed : owed call.owners call.topic r = true := by
      by_contra hno
      simp only [Bool.eq_false_of_not_eq_true hno, Bool.toNat_false] at hcount
      omega
    obtain ⟨x, hx, hmatch⟩ := owed_iff.mp howed
    exact ⟨by omega, x, (h.subs x).mpr ⟨r, hx⟩, hx, hmatch⟩
  · obtain ⟨r, hr⟩ := (h.subs x).mp hx
    refine ⟨r, fun r' => ⟨fun hr' => h.once r' r x hr' hr, fun e => e ▸ hr⟩, ?_⟩
    rw [h.count r, owed_iff.mpr ⟨x, hr, hmatch⟩]
    rfl
  obtain ⟨topic, targets, placed, skipped, owners, subs⟩ := call
  cases htargets
  refine ⟨by simp [netStep, hcall, hidle],
    { s with ready := update s.ready r .full }.setCall p
      ⟨topic, rest, r :: placed, skipped, owners, subs⟩, ?_, by simp [setCall]⟩
  simp only [netStep, hcall, hidle, if_true]

/-- `/a` and `/*`. -/
def exactName : Text := [47#8, 97#8]
def anyName : Text := [47#8, 42#8]

/-- A component subscribes to a topic and to a pattern that matches it. -/
def overlap : List Move :=
  [.subscribe exactName 0, .subscribe anyName 0, .publish 0 exactName, .deliver 0, .deliver 0]

theorem placed_once_per_subscription_overlap : ∃ s call,
    Run netStep (fun _ m => m.proper = true) new s ∧ s.calls 0 = some call ∧
      call.placed ≠ [] ∧ ∀ r ∈ call.placed, call.placed.count r = 1 := by
  have hexec : ((exec netStep new overlap).bind fun s =>
      (s.calls 0).map Call.placed) = some [.wild 0, .exact 0 0] := by decide
  obtain ⟨s, hs, hcall⟩ := bind_eq_some_iff.mp hexec
  obtain ⟨call, hcall, hplaced⟩ := map_eq_some_iff.mp hcall
  have hproper : ∀ m ∈ overlap, m.proper = true := by decide
  have hrun : Run netStep (fun _ m => m.proper = true) new s :=
    run_of_exec _ _ _ _ _ (Along.of_mem (fun m hm _ => hproper m hm) _) hs
  exact ⟨s, call, hrun, hcall, by simp [hplaced],
    fun r hr => ((placed_once_per_subscription hrun hcall).1 r hr).1⟩

/-- A component unsubscribes between the gathering and the delivery, and another
one takes its place. -/
def reused : List Move :=
  [.subscribe exactName 0, .publish 0 exactName, .unsubscribeAll 0,
    .subscribe [47#8, 98#8] 1, .deliver 0]

/-- One component gets a message twice, and one that has never subscribed to a
matching name gets a message. -/
theorem placed_twice_and_elsewhere : ((exec netStep new overlap).bind fun s =>
      (s.calls 0).map fun call => call.placed.map s.table.owner) =
        some [some (0, anyName), some (0, exactName)] ∧
    ((exec netStep new reused).bind fun s =>
      (s.calls 0).map fun call => (call.topic, call.placed.map s.table.owner)) =
        some (exactName, [some (1, [47#8, 98#8])]) ∧
    patternMatches [47#8, 98#8] exactName = false := by
  refine ⟨?_, ?_, ?_⟩ <;> decide +kernel

end SlmOs.Router
