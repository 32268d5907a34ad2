import SlmOs.Router.Claim

/-!
# What a publisher counts as delivered

A publisher that waits looks at the flag `ack` of the mailbox, which says nothing
about whose message was acknowledged.  The flag is right as long as nobody claims
the mailbox before it has been set and seen.
-/

namespace SlmOs.Router

open Foundation Guarded PublishPc Exchange Option

structure CountsRight (s : Exchange) : Prop where
  counted : ∀ id ∈ s.counted, id ∈ s.acked
  seen : ∀ p pub id, s.publishers p = some pub → pub.pc = .waitAck id →
    id ∈ s.acked → s.guarded ≠ some .ackFlag → s.mailbox.ack ≠ 0

def AllSeen (s : Exchange) : Prop :=
  s.guarded ≠ some .ackFlag ∧ ∀ q pub, s.publishers q = some pub → ∀ id, pub.pc ≠ .waitAck id

/-- Publishers, `receive` and `ack`; the mailbox is claimed in time. -/
def ClaimsInTime (s : Exchange) (a : Action) : Prop :=
  a ≠ .clear ∧ ∀ p pub, a = .publisher p → s.publishers p = some pub →
    pub.pc = .claim → s.mailbox.ready = .idle → AllSeen s

def Guarded.ofClear : Guarded → Bool
  | .clearReady => true
  | .clearClaim _ => true
  | g => g.writes

def LastAcked (s : Exchange) : Prop :=
  ∃ id, s.accepted.length = id + 1 ∧ id ∈ s.acked

structure Flagged (s : Exchange) : Prop where
  counted : ∀ id ∈ s.counted, id ∈ s.acked
  pending : s.guarded = some .ackFlag → s.mailbox.ready = .idle ∧ LastAcked s
  flag : s.mailbox.ack ≠ 0 → LastAcked s
  fresh : ∀ p pub, s.publishers p = some pub →
    pub.pc = .storePriority ∨ pub.pc = .storeReady → s.mailbox.ack = 0
  waiting : ∀ p pub id, s.publishers p = some pub → pub.pc = .waitAck id →
    s.mailbox.ready ≠ .writing ∧ s.accepted.length = id + 1 ∧
      (id ∈ s.acked → s.mailbox.ack ≠ 0 ∨ s.guarded = some .ackFlag)
  noClear : ∀ g, s.guarded = some g → g.ofClear = false

theorem Flagged.countsRight (h : Flagged s) : CountsRight s where
  counted := h.counted
  seen p pub id hp hpc hacked hguarded :=
    ((h.waiting p pub id hp hpc).2.2 hacked).resolve_right hguarded

section

variable {s : Exchange} {p : Nat} {pub : Publisher}

section

variable (h : Flagged s)
include h

theorem Flagged.alone (hsafe : Safe s)
    (hp : s.publishers p = some pub) (hw : pub.pc.writes = true) :
    s.mailbox.ready = .writing ∧ s.guarded ≠ some .ackFlag ∧
      ∀ q pub', s.publishers q = some pub' → ∀ id, pub'.pc ≠ .waitAck id := by
  have hwriting : s.mailbox.ready = .writing :=
    hsafe.claim.claimed.mpr ⟨.publisher p, (holds_publisher hp).trans hw⟩
  refine ⟨hwriting, fun hflag => ?_, fun q pub' hq id hpc => ?_⟩
  · have hidle := (h.pending hflag).1
    simp [hwriting] at hidle
  · exact (h.waiting q pub' id hq hpc).1 hwriting

theorem Flagged.come (hx : ∀ pub, x = some pub → pub.pc = .claim) : Flagged (s.set p x) where
  counted := h.counted
  pending := h.pending
  flag := h.flag
  fresh q pub' hq hpc := by
    by_cases hqp : q = p
    · subst hqp
      rw [set_self] at hq
      simp [hx pub' hq] at hpc
    rw [set_of_ne x hqp] at hq
    exact h.fresh q pub' hq hpc
  waiting q pub' id hq hpc := by
    by_cases hqp : q = p
    · subst hqp
      rw [set_self] at hq
      simp [hx pub' hq] at hpc
    rw [set_of_ne x hqp] at hq
    exact h.waiting q pub' id hq hpc
  noClear := h.noClear

theorem Flagged.write (hnobody : s.guarded ≠ some .ackFlag ∧
      ∀ q pub', s.publishers q = some pub' → ∀ id, pub'.pc ≠ .waitAck id)
    (hothers : ∀ q pub', q ≠ p → s.publishers q = some pub' → pub'.pc.writes = false)
    (hpc : pc.writes = true) (hack : mb.ack ≠ 0 → s.mailbox.ack ≠ 0)
    (hfresh : pc = .storePriority ∨ pc = .storeReady → mb.ack = 0) :
    Flagged ({ s with mailbox := mb }.set p (some { pub with pc := pc })) where
  counted := h.counted
  pending hflag := absurd hflag hnobody.1
  flag hne := h.flag (hack hne)
  fresh q pub' hq hpc' := by
    by_cases hqp : q = p
    · subst hqp
      rw [set_self] at hq
      cases hq
      exact hfresh hpc'
    rw [set_of_ne _ hqp] at hq
    have hidle := hothers q pub' hqp hq
    rcases hpc' with hpc' | hpc' <;> simp [hpc', PublishPc.writes] at hidle
  waiting q pub' id hq hpc' := by
    by_cases hqp : q = p
    · subst hqp
      rw [set_self] at hq
      cases hq
      simp only at hpc'
      simp [hpc', PublishPc.writes] at hpc
    rw [set_of_ne _ hqp] at hq
    exact absurd hpc' (hnobody.2 q pub' hq id)
  noClear := h.noClear

theorem Flagged.published (hsafe : Safe s) (hp : s.publishers p = some pub)
    (hpc : pub.pc = .storeReady) (hx : ∀ pub, x = some pub → pub.pc = .waitAck s.accepted.length) :
    Flagged ({ s with
      mailbox := { s.mailbox with ready := .full }
      accepted := pub.msg :: s.accepted }.set p x) := by
  obtain ⟨hwriting, hguarded, hnobody⟩ := h.alone hsafe hp (by simp [hpc, PublishPc.writes])
  have hack : s.mailbox.ack = 0 := h.fresh p pub hp (.inr hpc)
  constructor
  · exact h.counted
  · exact fun hflag => absurd hflag hguarded
  · intro hne
    simp [hack] at hne
  · exact fun _ _ _ _ => hack
  · intro q pub' id hq hpc'
    by_cases hqp : q = p
    · subst hqp
      rw [set_self] at hq
      rw [hx pub' hq] at hpc'
      cases hpc'
      refine ⟨by simp, rfl, fun hacked => ?_⟩
      exact absurd (hsafe.acked.2 _ hacked) (Nat.lt_irrefl _)
    rw [set_of_ne _ hqp] at hq
    exact absurd hpc' (hnobody q pub' hq id)
  · exact h.noClear

theorem Flagged.count {id : Nat} (hacked : id ∈ s.acked) :
    Flagged { s with counted := id :: s.counted } where
  counted := by simpa [hacked] using h.counted
  pending := h.pending
  flag := h.flag
  fresh := h.fresh
  waiting := h.waiting
  noClear := h.noClear

theorem Flagged.publishStep (hsafe : Safe s) (hp : s.publishers p = some pub)
    (hclaim : pub.pc = .claim → s.mailbox.ready = .idle → AllSeen s) :
    Flagged (publishStep s p pub) := by
  have hothers : s.mailbox.ready = .idle ∨ pub.pc.writes = true →
      ∀ q pub', q ≠ p → s.publishers q = some pub' → pub'.pc.writes = false := by
    intro hfree q pub' hqp hq
    rw [← holds_publisher hq]
    rcases hfree with hidle | hw
    · by_contra hwrites
      have hwriting := hsafe.claim.claimed.mpr ⟨.publisher q, by simpa using hwrites⟩
      simp [hidle] at hwriting
    · exact hsafe.claim.others ((holds_publisher hp).trans hw) (by simpa using hqp)
  unfold Router.publishStep
  cases hpc : pub.pc with
  | claim =>
    dsimp only
    split
    · rename_i hidle
      exact h.write (hclaim hpc hidle) (hothers (.inl hidle)) rfl (fun hne => hne) (by simp)
    split
    · exact h
    · exact h.come (by simp)
  | storeReady =>
    apply h.published hsafe hp hpc
    split
    · rintro _ ⟨⟩
      rfl
    · simp
  | waitAck id =>
    dsimp only
    split
    · rename_i hack
      obtain ⟨-, hlength, -⟩ := h.waiting p pub id hp hpc
      obtain ⟨id', hlength', hacked⟩ := h.flag hack
      obtain rfl : id = id' := by omega
      exact (h.count hacked).come (by simp)
    · exact h
  | storeAck =>
    have hw : pub.pc.writes = true := by simp [hpc, PublishPc.writes]
    exact h.write (h.alone hsafe hp hw).2 (hothers (.inr hw)) rfl (by simp) (by simp)
  | storePriority =>
    have hw : pub.pc.writes = true := by simp [hpc, PublishPc.writes]
    exact h.write (h.alone hsafe hp hw).2 (hothers (.inr hw)) rfl
      (fun hne => hne) (fun _ => h.fresh p pub hp (.inl hpc))
  | copyData i | copyTopic i =>
    have hw : pub.pc.writes = true := by simp [hpc, PublishPc.writes]
    dsimp only
    split <;>
      exact h.write (h.alone hsafe hp hw).2 (hothers (.inr hw)) rfl (fun hne => hne) (by simp)

theorem Flagged.turn (hbefore : s.guarded ≠ some .ackFlag)
    (hafter : ∀ g, x = some g → g ≠ .ackFlag ∧ g.ofClear = false)
    (y : Option Receipt) (receipts : List Receipt) :
    Flagged { s with guarded := x, reading := y, receipts := receipts } where
  counted := h.counted
  pending hflag := absurd rfl (hafter _ hflag).1
  flag := h.flag
  fresh := h.fresh
  waiting q pub' id hq hpc := by
    obtain ⟨hready, hlength, hacked⟩ := h.waiting q pub' id hq hpc
    exact ⟨hready, hlength, fun hid => .inl ((hacked hid).resolve_right hbefore)⟩
  noClear g hg := (hafter g hg).2

theorem Flagged.acknowledged (hsafe : Safe s) (hg : s.guarded = some .ackIdle) : Flagged { s with
      mailbox := { s.mailbox with ready := .idle }
      guarded := some .ackFlag
      acked := s.last :: s.acked } := by
  obtain ⟨hfull, -⟩ : s.mailbox.ready = .full ∧ s.reading = none := hsafe.guard _ hg
  obtain ⟨m, rest, haccepted, -, -⟩ := hsafe.full hfull
  have hlast : ∀ a : Exchange, a.accepted = s.accepted →
      a.acked = s.last :: s.acked → LastAcked a := by
    intro a haccepted' hacked
    refine ⟨rest.length, by simp [haccepted', haccepted], ?_⟩
    simp [hacked, last, haccepted]
  constructor
  · exact fun id hid => List.mem_cons_of_mem _ (h.counted id hid)
  · exact fun _ => ⟨rfl, hlast _ rfl rfl⟩
  · exact fun _ => hlast _ rfl rfl
  · exact h.fresh
  · intro q pub' id hq hpc
    exact ⟨by simp, (h.waiting q pub' id hq hpc).2.1, fun _ => .inr rfl⟩
  rintro _ ⟨⟩
  rfl

theorem Flagged.set (hsafe : Safe s) (hg : s.guarded = some .ackFlag) : Flagged { s with
      mailbox := { s.mailbox with ack := 1 }
      guarded := none } := by
  obtain ⟨hidle, hlast⟩ := h.pending hg
  constructor
  · exact h.counted
  · simp
  · exact fun _ => hlast
  · intro q pub' hq hpc
    have hq : s.publishers q = some pub' := hq
    have hwriting := hsafe.claim.claimed.mpr ⟨.publisher q, by
      rw [holds_publisher hq]
      rcases hpc with hpc | hpc <;> simp [hpc, PublishPc.writes]⟩
    simp [hidle] at hwriting
  · intro q pub' id hq hpc
    obtain ⟨hready, hlength, -⟩ := h.waiting q pub' id hq hpc
    exact ⟨hready, hlength, fun _ => .inl (by simp)⟩
  · simp

theorem Flagged.guardedStep (hsafe : Safe s)
    (hg : s.guarded = some g) : Flagged (guardedStep s g) := by
  have hclear := h.noClear g hg
  unfold Router.guardedStep
  cases g with
  | ackIdle => exact h.acknowledged hsafe hg
  | ackFlag => exact h.set hsafe hg
  | receiveReady | receiveTopic priority out | ackReady =>
    dsimp only
    split
    · exact h.turn (by simp [hg]) (by simp [Guarded.ofClear, Guarded.writes]) _ _
    · exact h.turn (by simp [hg]) (by simp) _ _
  | receivePriority =>
    exact h.turn (by simp [hg]) (by simp [Guarded.ofClear, Guarded.writes]) _ _
  | _ => cases hclear

theorem Flagged.step {s' : Exchange} {a : Action} (hsafe : Safe s) (hok : ClaimsInTime s a)
    (hstep : step s a = some s') : Flagged s' := by
  cases a with
  | publish p msg waits =>
    simp only [Router.step] at hstep
    split at hstep
    · cases hstep
    cases hstep
    exact h.come (by simp)
  | publisher p =>
    obtain ⟨pub, hp, rfl⟩ := map_eq_some_iff.mp hstep
    exact h.publishStep hsafe hp (hok.2 p pub rfl hp)
  | clear => exact absurd rfl hok.1
  | guarded =>
    obtain ⟨g, hg, rfl⟩ := map_eq_some_iff.mp hstep
    exact h.guardedStep hsafe hg
  | receive | ack =>
    simp only [Router.step, Option.ite_none_right_eq_some, Option.some.injEq] at hstep
    obtain ⟨hg, rfl⟩ := hstep
    exact h.turn (by simp [hg]) (by simp [Guarded.ofClear, Guarded.writes]) _ _
  | passOver =>
    simp only [Router.step] at hstep
    split at hstep
    · rename_i hg
      cases hstep
      exact h.turn (by simp [hg]) (by simp) _ _
    · cases hstep
  | read =>
    simp only [Router.step] at hstep
    split at hstep
    · cases hstep
    split at hstep
    all_goals
      cases hstep
      exact ⟨h.counted, h.pending, h.flag, h.fresh, h.waiting, h.noClear⟩

end

end

theorem flagged_new : Flagged new where
  counted := by simp [new]
  pending := by simp [new]
  flag := by simp [new]
  fresh := by simp [new]
  waiting := by simp [new]
  noClear := by simp [new]

/--
In every interleaving of publishers with `receive` and `ack` in which the mailbox is
claimed only after the last acknowledgement has been flagged and seen, a publisher
counts its message only if it was acknowledged, and finds the flag set if it was.
-/
theorem delivered_means_acked {s : Exchange}
    (hrun : Run step ClaimsInTime new s) : CountsRight s := by
  have h := Run.invariant (I := fun s => Safe s ∧ Flagged s)
    (fun _ _ _ h hok hstep => ⟨h.1.step hstep, h.2.step h.1 hok hstep⟩)
    ⟨safe_new, flagged_new⟩ hrun
  exact h.2.countsRight

def claimsFirst (s : Exchange) : Action → Bool
  | .clear => false
  | .publisher p =>
    (s.publishers p).all (fun pub => pub.pc ≠ .claim) || s.accepted.isEmpty && s.guarded.isNone
  | _ => true

theorem Flagged.claimsInTime (h : Flagged s)
    (hfirst : claimsFirst s a = true) : ClaimsInTime s a := by
  refine ⟨fun ha => by simp [ha, claimsFirst] at hfirst, ?_⟩
  rintro p pub rfl hp hpc -
  simp only [claimsFirst, hp, all_some, hpc, ne_eq, not_true_eq_false,
    decide_false, Bool.false_or, Bool.and_eq_true, List.isEmpty_iff,
    isNone_iff_eq_none] at hfirst
  refine ⟨by simp [hfirst.2], fun q pub' hq id hpc' => ?_⟩
  have hlength := (h.waiting q pub' id hq hpc').2.1
  simp [hfirst.1] at hlength

theorem run_of_claimsFirst (hrun : Run step (fun s a => claimsFirst s a = true) new s) :
    (Safe s ∧ Flagged s) ∧ Run step ClaimsInTime new s := by
  induction hrun with
  | refl => exact ⟨⟨safe_new, flagged_new⟩, .refl _⟩
  | tail _ hok hstep ih =>
    obtain ⟨⟨hsafe, hflagged⟩, hrun⟩ := ih
    have hin := hflagged.claimsInTime hok
    exact ⟨⟨hsafe.step hstep, hflagged.step hsafe hin hstep⟩, hrun.tail hin hstep⟩

def pingAcked : List Action :=
  pingRead ++ [.ack, .guarded, .guarded, .guarded, .publisher 0]

theorem delivered_means_acked_ping :
    ∃ s, exec step new pingAcked = some s ∧ s.counted = [0] ∧ CountsRight s := by
  have hcounted : (exec step new pingAcked).map (fun s => s.counted) = some [0] := by decide
  obtain ⟨s, hexec, hcounted⟩ := map_eq_some_iff.mp hcounted
  have halong : Along step (fun s a => claimsFirst s a = true) new
      pingAcked := by
    repeat' constructor
  have hrun := run_of_claimsFirst (run_of_exec step _ pingAcked _ _ halong hexec)
  exact ⟨s, hexec, hcounted, delivered_means_acked hrun.2⟩

/--
The first message is being acknowledged: the mailbox is idle, but the flag is still
to be set.  It is set after the second publisher has cleared it.
-/
def ackStolen : List Action :=
  .publish 0 ping true :: List.replicate 8 (.publisher 0) ++ [.ack, .guarded, .guarded] ++
    .publish 1 ping true :: List.replicate 8 (.publisher 1) ++
    [.guarded, .publisher 1]

theorem delivered_without_ack : (∀ a ∈ ackStolen, a ≠ .clear) ∧
      ∃ s, exec step new ackStolen = some s ∧ s.counted = [1] ∧
        s.acked = [0] ∧ ¬ CountsRight s := by
  have hlogs : (exec step new ackStolen).map
      (fun s => (s.counted, s.acked)) = some ([1], [0]) := by decide
  obtain ⟨s, hexec, hlogs⟩ := map_eq_some_iff.mp hlogs
  obtain ⟨hcounted, hacked⟩ := Prod.mk.inj hlogs
  refine ⟨by simp [ackStolen], s, hexec, hcounted, hacked, fun hright => ?_⟩
  have hmem := hright.counted 1 (by simp [hcounted])
  simp [hacked] at hmem

end SlmOs.Router
