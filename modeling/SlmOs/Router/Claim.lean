import SlmOs.Router.Mailbox

/-!
# The claim on a mailbox

Whoever writes to a mailbox has taken it from idle or full to writing before, and
nobody else does until it is given up.  So a full mailbox holds one message, and
this message can be read until it is acknowledged or cleared.
-/

namespace SlmOs.Router

open Foundation Exchange Guarded List PublishPc Option Router

/-! ## Who writes -/

def PublishPc.writes : PublishPc → Bool
  | .claim => false
  | .waitAck _ => false
  | _ => true

def Guarded.writes : Guarded → Bool
  | .clearAck => true
  | .clearData _ => true
  | .clearTopic _ => true
  | .clearPriority => true
  | .clearIdle => true
  | _ => false

inductive Holder where
  | publisher (p : Nat)
  | clear
  deriving DecidableEq

def Exchange.holds (s : Exchange) : Holder → Bool
  | .publisher p => (s.publishers p).any fun pub => pub.pc.writes
  | .clear => s.guarded.any Guarded.writes

/-- The mailbox is claimed by exactly the one who is writing to it. -/
structure Claimed (s : Exchange) : Prop where
  claimed : s.mailbox.ready = .writing ↔ ∃ h, s.holds h = true
  single : ∀ h h', s.holds h = true → s.holds h' = true → h = h'

section

variable {s s' : Exchange} {h₀ : Holder}

section

variable (h : Claimed s)
include h

theorem Claimed.same (hready : s'.mailbox.ready = .writing ↔ s.mailbox.ready = .writing)
    (hholds : ∀ h, s'.holds h = s.holds h) : Claimed s' where
  claimed := by simpa [hready, hholds] using h.claimed
  single := by simpa [hholds] using h.single

theorem Claimed.take (h₀ : Holder) (hfree : s.mailbox.ready ≠ .writing)
    (hready : s'.mailbox.ready = .writing) (hholds₀ : s'.holds h₀ = true)
    (hholds : ∀ h, h ≠ h₀ → s'.holds h = s.holds h) : Claimed s' := by
  have hnobody : ∀ h, s.holds h = false := by
    intro k
    by_contra hk
    exact hfree (h.claimed.mpr ⟨k, by simpa using hk⟩)
  have honly : ∀ k, s'.holds k = true → k = h₀ := by
    intro k hk
    by_contra hne
    rw [hholds k hne, hnobody] at hk
    cases hk
  exact ⟨by simp only [hready, true_iff]; exact ⟨h₀, hholds₀⟩,
    fun k k' hk hk' => (honly k hk).trans (honly k' hk').symm⟩

theorem Claimed.leave (hold : s.holds h₀ = true)
    (hready : s'.mailbox.ready ≠ .writing) (hholds₀ : s'.holds h₀ = false)
    (hholds : ∀ h, h ≠ h₀ → s'.holds h = s.holds h) : Claimed s' := by
  have hnobody : ∀ k, s'.holds k = false := by
    intro k
    by_cases hne : k = h₀
    · rw [hne, hholds₀]
    rw [hholds k hne]
    by_contra hk
    exact hne (h.single k h₀ (by simpa using hk) hold)
  exact ⟨by simp [hready, hnobody], by simp [hnobody]⟩

theorem Claimed.others (hold : s.holds h₀ = true) (hne : k ≠ h₀) : s.holds k = false := by
  by_contra hk
  exact hne (h.single k h₀ (by simpa using hk) hold)

end

end

/-! ## What is in the mailbox -/

structure Contains (mb : Mailbox) (m : Message) : Prop where
  data : HoldsText mb.data m.data
  topic : HoldsText mb.topic m.topic
  priority : mb.priority = m.priority

def Progress (mb : Mailbox) (pub : Publisher) : Prop :=
  match pub.pc with
  | .claim => True
  | .copyData i => Written mb.data pub.msg.data i
  | .copyTopic i =>
    HoldsText mb.data pub.msg.data ∧ Written mb.topic pub.msg.topic i
  | .storeAck =>
    HoldsText mb.data pub.msg.data ∧ HoldsText mb.topic pub.msg.topic
  | .storePriority =>
    HoldsText mb.data pub.msg.data ∧ HoldsText mb.topic pub.msg.topic
  | .storeReady => Contains mb pub.msg
  | .waitAck _ => True

theorem progress_of_not_writes (h : pub.pc.writes = false) : Progress mb pub := by
  unfold Progress
  cases hpc : pub.pc <;> simp_all [PublishPc.writes]

def GuardOk (s : Exchange) : Guarded → Prop
  | .receivePriority => s.mailbox.ready = .full
  | .receiveTopic priority out =>
    s.mailbox.ready = .full ∧ ∃ m rest, s.accepted = m :: rest ∧
      priority = m.priority ∧ out = m.topic.take out.length
  | .ackReady => s.reading = none
  | .ackIdle => s.mailbox.ready = .full ∧ s.reading = none
  | .clearClaim cur => cur ≠ .writing
  | _ => True

def ReadOk (s : Exchange) (r : Receipt) : Prop :=
  r.intact = true → s.mailbox.ready = .full ∧
    ∃ m rest, s.accepted = m :: rest ∧ r.id = rest.length ∧
      r.topic = m.topic ∧ r.priority = m.priority ∧
      r.data = m.data.take r.data.length

def Matches (accepted : List Message) (r : Receipt) : Prop :=
  ∃ m, accepted.reverse[r.id]? = some m ∧ r.topic = m.topic ∧
    r.data = m.data ∧ r.data.length = m.data.length ∧ r.priority = m.priority

theorem Matches.accept {accepted : List Message} {r : Receipt}
    (h : Matches accepted r) (m : Message) : Matches (m :: accepted) r := by
  obtain ⟨m', hget, hrest⟩ := h
  refine ⟨m', ?_, hrest⟩
  rw [List.reverse_cons]
  exact List.getElem?_append_left (List.getElem?_eq_some_iff.mp hget).1 ▸ hget

structure Safe (s : Exchange) : Prop where
  claim : Claimed s
  progress : ∀ p pub, s.publishers p = some pub → Progress s.mailbox pub
  full : s.mailbox.ready = .full → ∃ m rest, s.accepted = m :: rest ∧
    Contains s.mailbox m ∧ rest.length ∉ s.acked
  guard : ∀ g, s.guarded = some g → GuardOk s g
  reading : ∀ r, s.reading = some r → ReadOk s r
  receipts : ∀ r ∈ s.receipts, r.intact = true → Matches s.accepted r
  acked : s.acked.Nodup ∧ ∀ id ∈ s.acked, id < s.accepted.length

/-! ## Steps -/

section

variable {s s' : Exchange} {p : Nat} {pub : Publisher}

section

variable (x : Option Publisher)

@[simp] theorem set_mailbox : (s.set p x).mailbox = s.mailbox := rfl

@[simp] theorem set_reading : (s.set p x).reading = s.reading := rfl

@[simp] theorem set_self : (s.set p x).publishers p = x := by
  simp [Exchange.set]

theorem set_of_ne (h : q ≠ p) : (s.set p x).publishers q = s.publishers q := by
  simp [Exchange.set, h]

end

theorem holds_others (hk : k ≠ .publisher p)
    (hpublishers : ∀ q, q ≠ p → s'.publishers q = s.publishers q)
    (hguarded : s'.guarded = s.guarded) : s'.holds k = s.holds k := by
  cases k with
  | publisher q => simp [holds, hpublishers q (by simpa using hk)]
  | clear => simp [holds, hguarded]

theorem holds_publisher (hp : s.publishers p = some pub) :
    s.holds (.publisher p) = pub.pc.writes := by
  simp [holds, hp]

variable {g : Guarded}

theorem GuardOk.congr (h : GuardOk s g) (hready : s'.mailbox.ready = s.mailbox.ready)
    (haccepted : s'.accepted = s.accepted) (hreading : s'.reading = s.reading) : GuardOk s' g := by
  cases g <;> simp_all [GuardOk]

variable {r : Receipt}

theorem ReadOk.congr (h : ReadOk s r) (hready : s'.mailbox.ready = s.mailbox.ready)
    (haccepted : s'.accepted = s.accepted) : ReadOk s' r := by
  simpa [ReadOk, hready, haccepted] using h

theorem progress_set (s : Exchange) (hx : ∀ pub, x = some pub → Progress s'.mailbox pub)
    (hpublishers : s'.publishers = Function.update s.publishers p x)
    (hothers : ∀ q, q ≠ p → s.holds (.publisher q) = false) (q : Nat) (pub : Publisher)
    (hq : s'.publishers q = some pub) : Progress s'.mailbox pub := by
  rw [hpublishers] at hq
  by_cases hqp : q = p
  · subst hqp
    exact hx pub (by simpa using hq)
  rw [Function.update_of_ne hqp] at hq
  exact progress_of_not_writes ((holds_publisher hq).symm.trans (hothers q hqp))

section

variable (h : Safe s)
include h

theorem Safe.quiet (hbefore : s.holds (.publisher p) = false)
    (hafter : (x.any fun pub => pub.pc.writes) = false) : Safe (s.set p x) where
  claim := by
    refine h.claim.same Iff.rfl fun k => ?_
    by_cases hk : k = .publisher p
    · subst hk
      rw [hbefore]
      simpa [holds] using hafter
    · exact holds_others hk (fun q hq => set_of_ne x hq) rfl
  progress := by
    intro q pub hq
    by_cases hqp : q = p
    · subst hqp
      rw [set_self] at hq
      exact progress_of_not_writes (by simpa [hq] using hafter)
    rw [set_of_ne x hqp] at hq
    exact h.progress q pub hq
  full := h.full
  guard g hg := (h.guard g hg).congr rfl rfl rfl
  reading r hr := (h.reading r hr).congr rfl rfl
  receipts := h.receipts
  acked := h.acked

theorem Safe.store (hp : s.publishers p = some pub) (hbefore : pub.pc.writes = true)
    (hafter : pc.writes = true) (hready : mb.ready = s.mailbox.ready)
    (hprogress : Progress mb { pub with pc := pc }) :
    Safe ({ s with mailbox := mb }.set p (some { pub with pc := pc })) := by
  have hholds : s.holds (.publisher p) = true := (holds_publisher hp).trans hbefore
  have hwriting : s.mailbox.ready = .writing := h.claim.claimed.mpr ⟨_, hholds⟩
  constructor
  · refine h.claim.same (by simp [hready]) fun k => ?_
    by_cases hk : k = .publisher p
    · subst hk
      rw [hholds]
      simpa [holds] using hafter
    · exact holds_others hk (fun q hq => set_of_ne _ hq) rfl
  · refine progress_set s (by simpa using hprogress) rfl fun q hq => ?_
    exact h.claim.others (k := .publisher q) hholds (by simpa using hq)
  · intro hfull
    simp [hready, hwriting] at hfull
  · exact fun g hg => (h.guard g hg).congr hready rfl rfl
  · exact fun r hr => (h.reading r hr).congr hready rfl
  · exact h.receipts
  · exact h.acked

theorem Safe.claimed (hidle : s.mailbox.ready = .idle) (pub : Publisher) :
    Safe ({ s with mailbox := { s.mailbox with ready := .writing } }.set p
      (some { pub with pc := .copyData 0 })) := by
  have hnobody : ∀ k, s.holds k = false := by
    intro k
    by_contra hk
    have hwriting := h.claim.claimed.mpr ⟨k, by simpa using hk⟩
    simp [hidle] at hwriting
  constructor
  · exact h.claim.take (.publisher p) (by simp [hidle]) rfl
      (by simp [Exchange.holds, PublishPc.writes])
      fun k hk => holds_others hk (fun q hq => set_of_ne _ hq) rfl
  · exact progress_set s (by simp [Progress]) rfl fun q _ => hnobody _
  · simp
  · intro g hg
    have hok := h.guard g hg
    cases g <;> simp_all [GuardOk]
  · intro r hr hintact
    have hok := h.reading r hr hintact
    simp [hidle] at hok
  · exact h.receipts
  · exact h.acked

theorem Safe.published (hp : s.publishers p = some pub) (hpc : pub.pc = .storeReady)
    (hafter : (x.any fun pub => pub.pc.writes) = false) :
    Safe ({ s with
      mailbox := { s.mailbox with ready := .full }
      accepted := pub.msg :: s.accepted }.set p x) := by
  have hholds : s.holds (.publisher p) = true := by
    simp [holds_publisher hp, hpc, PublishPc.writes]
  have hwriting : s.mailbox.ready = .writing := h.claim.claimed.mpr ⟨_, hholds⟩
  have hcontains : Contains s.mailbox pub.msg := by
    simpa [Progress, hpc] using h.progress p pub hp
  constructor
  · exact h.claim.leave hholds (by simp) (by simpa [Exchange.holds] using hafter)
      fun k hk => holds_others hk (fun q hq => set_of_ne _ hq) rfl
  · refine progress_set s (fun pub' hx => progress_of_not_writes ?_) rfl
      fun q hq => h.claim.others (k := .publisher q) hholds (by simpa using hq)
    simpa [hx] using hafter
  · intro _
    refine ⟨pub.msg, s.accepted, rfl, ⟨hcontains.data, hcontains.topic,
      hcontains.priority⟩, fun hmem => ?_⟩
    exact absurd (h.acked.2 _ hmem) (Nat.lt_irrefl _)
  · intro g hg
    have hok := h.guard g hg
    cases g <;> simp_all [GuardOk]
  · intro r hr hintact
    have hok := h.reading r hr hintact
    simp [hwriting] at hok
  · exact fun r hr hintact => (h.receipts r hr hintact).accept pub.msg
  refine ⟨h.acked.1, fun id hid => ?_⟩
  exact Nat.lt_succ_of_lt (h.acked.2 id hid)

theorem Safe.turn (hbefore : s.holds .clear = false)
    (hafter : ∀ g, x = some g → g.writes = false ∧ GuardOk { s with guarded := x, reading := y } g)
    (hreading : ∀ r, y = some r → ReadOk s r) :
    Safe { s with guarded := x, reading := y } where
  claim := by
    refine h.claim.same Iff.rfl fun k => ?_
    cases k with
    | publisher q => rfl
    | clear =>
      rw [hbefore]
      cases x with
      | none => rfl
      | some g => exact (hafter g rfl).1
  progress := h.progress
  full := h.full
  guard g hg := (hafter g hg).2
  reading r hr := (hreading r hr).congr rfl rfl
  receipts := h.receipts
  acked := h.acked

end

theorem holds_clear (hg : s.guarded = some g) : s.holds .clear = g.writes := by
  simp [holds, hg]

theorem progress_idle (hothers : ∀ q, s.holds (.publisher q) = false) (mb : Mailbox) (q : Nat)
    (pub : Publisher) (hq : s.publishers q = some pub) : Progress mb pub :=
  progress_of_not_writes ((holds_publisher hq).symm.trans (hothers q))

section

variable (h : Safe s)
include h

theorem Safe.wipe (hg : s.guarded = some g) (hbefore : g.writes = true) (hafter : g'.writes = true)
    (hready : mb.ready = s.mailbox.ready) : Safe { s with mailbox := mb, guarded := some g' } := by
  have hholds : s.holds .clear = true := (holds_clear hg).trans hbefore
  have hwriting : s.mailbox.ready = .writing := h.claim.claimed.mpr ⟨_, hholds⟩
  constructor
  · refine h.claim.same (by simp [hready]) fun k => ?_
    cases k with
    | publisher q => rfl
    | clear => rw [hholds]; exact hafter
  · exact fun q pub hq => progress_idle (fun q => h.claim.others hholds (by simp)) mb q pub hq
  · intro hfull
    simp [hready, hwriting] at hfull
  · intro g₁ hg₁
    cases hg₁
    cases g' <;> simp_all [GuardOk, Guarded.writes]
  · exact fun r hr => (h.reading r hr).congr hready rfl
  · exact h.receipts
  · exact h.acked

theorem Safe.cleared (hg : s.guarded = some (.clearClaim cur)) (hcur : s.mailbox.ready = cur) :
    Safe { s with
      mailbox := { s.mailbox with ready := .writing }
      guarded := some .clearAck
      reading := s.reading.map spoil } := by
  have hfree : s.mailbox.ready ≠ .writing := by
    rw [hcur]
    exact h.guard _ hg
  have hnobody : ∀ k, s.holds k = false := by
    intro k
    by_contra hk
    exact hfree (h.claim.claimed.mpr ⟨k, by simpa using hk⟩)
  constructor
  · refine h.claim.take .clear hfree rfl rfl fun k hk => ?_
    cases k with
    | publisher q => rfl
    | clear => exact absurd rfl hk
  · exact fun q pub hq => progress_idle (fun q => hnobody _) _ q pub hq
  · simp
  · intro g hg'
    cases hg'
    trivial
  · intro r hr hintact
    obtain ⟨r', -, rfl⟩ := map_eq_some_iff.mp hr
    cases hintact
  · exact h.receipts
  · exact h.acked

theorem Safe.reset (hg : s.guarded = some .clearIdle) : Safe { s with
      mailbox := { s.mailbox with ready := .idle }
      guarded := none } := by
  have hholds : s.holds .clear = true := holds_clear hg
  have hwriting : s.mailbox.ready = .writing := h.claim.claimed.mpr ⟨_, hholds⟩
  constructor
  · refine h.claim.leave hholds (by simp) rfl fun k hk => ?_
    cases k with
    | publisher q => rfl
    | clear => exact absurd rfl hk
  · exact fun q pub hq => progress_idle (fun q => h.claim.others hholds (by simp)) _ q pub hq
  · simp
  · simp
  · intro r hr hintact
    have hok := h.reading r hr hintact
    simp [hwriting] at hok
  · exact h.receipts
  · exact h.acked

theorem Safe.acknowledged (hg : s.guarded = some .ackIdle) : Safe { s with
      mailbox := { s.mailbox with ready := .idle }
      guarded := some .ackFlag
      acked := s.last :: s.acked } := by
  obtain ⟨hfull, hreading⟩ : s.mailbox.ready = .full ∧ s.reading = none := h.guard _ hg
  obtain ⟨m, rest, haccepted, -, hfresh⟩ := h.full hfull
  have hlast : s.last = rest.length := by simp [last, haccepted]
  have hnobody : ∀ q, s.holds (.publisher q) = false := by
    intro q
    by_contra hq
    have hwriting := h.claim.claimed.mpr ⟨.publisher q, by simpa using hq⟩
    simp [hfull] at hwriting
  constructor
  · refine h.claim.same (by simp [hfull]) fun k => ?_
    cases k with
    | publisher q => rfl
    | clear => rw [holds_clear hg]; rfl
  · exact fun q pub hq => progress_idle hnobody _ q pub hq
  · simp
  · intro g hg'
    cases hg'
    trivial
  · simp [hreading]
  · exact h.receipts
  refine ⟨nodup_cons.mpr ⟨by rwa [hlast], h.acked.1⟩, fun id hid => ?_⟩
  rcases mem_cons.mp hid with rfl | hid
  · simp [hlast, haccepted]
  · exact h.acked.2 id hid

theorem Safe.flagged (hg : s.guarded = some .ackFlag) :
    Safe { s with mailbox := { s.mailbox with ack := 1 }, guarded := none } where
  claim := by
    refine h.claim.same Iff.rfl fun k => ?_
    cases k with
    | publisher q => rfl
    | clear => rw [holds_clear hg]; rfl
  progress p pub hp := by
    have hprogress := h.progress p pub hp
    unfold Progress at hprogress ⊢
    cases hpc : pub.pc with
    | storeReady =>
      rw [hpc] at hprogress
      exact ⟨hprogress.data, hprogress.topic, hprogress.priority⟩
    | _ =>
      rw [hpc] at hprogress
      exact hprogress
  full hfull := by
    obtain ⟨m, rest, haccepted, hcontains, hfresh⟩ := h.full hfull
    exact ⟨m, rest, haccepted, ⟨hcontains.data, hcontains.topic, hcontains.priority⟩, hfresh⟩
  guard := by simp
  reading r hr := (h.reading r hr).congr rfl rfl
  receipts := h.receipts
  acked := h.acked

theorem Safe.read {y : Option Receipt} {receipts : List Receipt} (hr : s.reading = some r)
    (hreading : ∀ r, y = some r → ReadOk s r)
    (hreceipts : ∀ r ∈ receipts, r.intact = true → Matches s.accepted r) :
    Safe { s with reading := y, receipts := receipts } where
  claim := h.claim.same Iff.rfl fun k => by cases k <;> rfl
  progress := h.progress
  full := h.full
  guard g hg := by
    have hok := h.guard g hg
    cases g <;> simp_all [GuardOk]
  reading r hr := (hreading r hr).congr rfl rfl
  receipts := hreceipts
  acked := h.acked

theorem Safe.count (counted : List Nat) : Safe { s with counted := counted } where
  claim := h.claim.same Iff.rfl fun k => by cases k <;> rfl
  progress := h.progress
  full := h.full
  guard g hg := (h.guard g hg).congr rfl rfl rfl
  reading r hr := (h.reading r hr).congr rfl rfl
  receipts := h.receipts
  acked := h.acked

theorem Safe.publishStep (hp : s.publishers p = some pub) : Safe (publishStep s p pub) := by
  have hprogress := h.progress p pub hp
  unfold Router.publishStep
  unfold Progress at hprogress
  cases hpc : pub.pc with
  | claim =>
    have hbefore : s.holds (.publisher p) = false := by
      simp [holds_publisher hp, hpc, PublishPc.writes]
    dsimp only
    split
    · rename_i hidle
      exact h.claimed hidle pub
    split
    · exact h
    · exact h.quiet hbefore rfl
  | copyData i =>
    rw [hpc] at hprogress
    dsimp only at hprogress ⊢
    cases hget : pub.msg.data[i]? with
    | some c =>
      exact h.store hp (by simp [hpc, PublishPc.writes]) rfl rfl (hprogress.next hget)
    | none =>
      exact h.store hp (by simp [hpc, PublishPc.writes]) rfl rfl
        ⟨hprogress.finish hget, written_zero⟩
  | copyTopic i =>
    rw [hpc] at hprogress
    dsimp only at hprogress ⊢
    cases hget : pub.msg.topic[i]? with
    | some c =>
      exact h.store hp (by simp [hpc, PublishPc.writes]) rfl rfl
        ⟨hprogress.1, hprogress.2.next hget⟩
    | none =>
      exact h.store hp (by simp [hpc, PublishPc.writes]) rfl rfl
        ⟨hprogress.1, hprogress.2.finish hget⟩
  | storeAck =>
    rw [hpc] at hprogress
    exact h.store hp (by simp [hpc, PublishPc.writes]) rfl rfl hprogress
  | storePriority =>
    rw [hpc] at hprogress
    exact h.store hp (by simp [hpc, PublishPc.writes]) rfl rfl ⟨hprogress.1, hprogress.2, rfl⟩
  | storeReady =>
    apply h.published hp hpc
    split <;> rfl
  | waitAck id =>
    have hbefore : s.holds (.publisher p) = false := by
      simp [holds_publisher hp, hpc, PublishPc.writes]
    dsimp only
    split
    · exact (h.count (id :: s.counted)).quiet hbefore rfl
    · exact h

theorem Safe.guardedStep (hg : s.guarded = some g) : Safe (guardedStep s g) := by
  have hclear := holds_clear hg
  have hok := h.guard g hg
  unfold Router.guardedStep
  cases g with
  | receiveReady =>
    dsimp only
    split
    · rename_i hfull
      exact h.turn hclear (by simp [Guarded.writes, GuardOk, hfull]) h.reading
    · exact h.turn hclear (by simp) h.reading
  | receivePriority =>
    obtain ⟨m, rest, haccepted, hcontains, -⟩ := h.full hok
    refine h.turn hclear (fun g hg' => ?_) h.reading
    cases hg'
    refine ⟨rfl, hok, m, rest, haccepted, ?_, by simp⟩
    rw [hcontains.priority]
    exact Nat.mod_eq_of_lt m.priority_fits
  | receiveTopic priority out =>
    obtain ⟨hfull, m, rest, haccepted, hpriority, hout⟩ := hok
    have htopic : HoldsText s.mailbox.topic m.topic := by
      obtain ⟨m', rest', haccepted', hcontains, -⟩ := h.full hfull
      rw [haccepted] at haccepted'
      cases haccepted'
      exact hcontains.topic
    have hle : out.length ≤ m.topic.length := by
      rw [hout]
      exact List.length_take_le' _ _
    dsimp only
    split
    · rename_i hnext
      refine h.turn hclear (fun g hg' => ?_) h.reading
      cases hg'
      refine ⟨rfl, hfull, m, rest, haccepted, hpriority, ?_⟩
      have hchar := (htopic.next hle hnext.2).2
      rw [← hout] at hchar
      simpa using hchar
    rename_i hstop
    have hall : out = m.topic := by
      by_cases hzero : s.mailbox.topic out.length = 0#8
      · rw [hout]
        exact htopic.stop m.topic_text hle hzero
      have hlen := m.topic_fits
      simp only [topicNameLen] at hlen hstop
      rw [hout]
      exact List.take_of_length_le (by
        have : ¬ out.length < 16 - 1 := fun hlt => hstop ⟨hlt, hzero⟩
        omega)
    refine h.turn hclear (by simp) fun r hr hintact => ?_
    cases hr
    refine ⟨hfull, m, rest, haccepted, ?_, hall, hpriority, by simp⟩
    simp [Exchange.last, haccepted]
  | ackReady =>
    dsimp only
    split
    · rename_i hfull
      refine h.turn hclear (fun g hg' => ?_) h.reading
      cases hg'
      exact ⟨rfl, hfull, hok⟩
    · exact h.turn hclear (by simp) h.reading
  | ackIdle => exact h.acknowledged hg
  | ackFlag => exact h.flagged hg
  | clearReady =>
    dsimp only
    split
    · exact h
    rename_i hfree
    refine h.turn hclear (fun g hg' => ?_) h.reading
    cases hg'
    exact ⟨rfl, hfree⟩
  | clearClaim cur =>
    dsimp only
    split
    · rename_i hcur
      exact h.cleared hg hcur
    · exact h.turn hclear (by simp [Guarded.writes, GuardOk]) h.reading
  | clearAck | clearPriority => exact h.wipe hg rfl rfl rfl
  | clearData i | clearTopic i =>
    dsimp only
    split <;> exact h.wipe hg rfl rfl rfl
  | clearIdle => exact h.reset hg

theorem Safe.readData (hr : s.reading = some r) (hintact : r.intact = true) :
    ∃ m rest, s.accepted = m :: rest ∧ r.id = rest.length ∧
      r.topic = m.topic ∧ r.priority = m.priority ∧
      r.data = m.data.take r.data.length ∧ r.data.length ≤ m.data.length ∧
      Contains s.mailbox m := by
  obtain ⟨hfull, m, rest, haccepted, hid, htopic, hpriority, hdata⟩ := h.reading r hr hintact
  obtain ⟨m', rest', haccepted', hcontains, -⟩ := h.full hfull
  rw [haccepted] at haccepted'
  cases haccepted'
  refine ⟨m, rest, haccepted, hid, htopic, hpriority, hdata, ?_, hcontains⟩
  rw [hdata]
  exact List.length_take_le' _ _

end

variable {a : Action}

theorem Safe.step (h : Safe s) (hstep : step s a = some s') : Safe s' := by
  cases a with
  | publish p msg waits =>
    simp only [step] at hstep
    split at hstep
    · cases hstep
    rename_i hnone
    cases hstep
    exact h.quiet (by simp [Exchange.holds, hnone]) rfl
  | publisher p =>
    obtain ⟨pub, hp, rfl⟩ := map_eq_some_iff.mp hstep
    exact h.publishStep hp
  | receive | ack =>
    simp only [step, ite_none_right_eq_some, some.injEq] at hstep
    obtain ⟨hg, rfl⟩ := hstep
    exact h.turn (by simp [Exchange.holds, hg]) (by simp [Guarded.writes, GuardOk]) (by simp)
  | clear =>
    simp only [step, ite_none_right_eq_some, some.injEq] at hstep
    obtain ⟨hg, rfl⟩ := hstep
    exact h.turn (by simp [Exchange.holds, hg]) (by simp [Guarded.writes, GuardOk]) h.reading
  | guarded =>
    obtain ⟨g, hg, rfl⟩ := map_eq_some_iff.mp hstep
    exact h.guardedStep hg
  | passOver =>
    simp only [step] at hstep
    split at hstep
    · rename_i hg
      cases hstep
      exact h.turn (holds_clear hg) (by simp) h.reading
    · cases hstep
  | read =>
    simp only [step] at hstep
    split at hstep
    · cases hstep
    rename_i r hr
    have hread := h.reading r hr
    split at hstep
    · rename_i hzero
      cases hstep
      refine h.read hr (by simp) fun r' hr' hintact => ?_
      rcases List.mem_cons.mp hr' with rfl | hr'
      · obtain ⟨m, rest, haccepted, hid, htopic, hpriority, hdata, hle, hcontains⟩ :=
          h.readData hr hintact
        have hall : r'.data = m.data := by
          rw [hdata]
          exact hcontains.data.stop m.data_text hle hzero
        refine ⟨m, ?_, htopic, hall, by rw [hall], hpriority⟩
        simp [haccepted, hid]
      · exact h.receipts r' hr' hintact
    rename_i hchar
    cases hstep
    refine h.read hr (fun r' hr' hintact => ?_) h.receipts
    cases hr'
    obtain ⟨m, rest, haccepted, hid, htopic, hpriority, hdata, hle, hcontains⟩ :=
      h.readData hr hintact
    have hnext := (hcontains.data.next hle hchar).2
    rw [← hdata] at hnext
    exact ⟨(hread hintact).1, m, rest, haccepted, hid, htopic, hpriority, by simpa using hnext⟩

end

/-! ## Whole runs -/

theorem safe_new : Safe Exchange.new where
  claim := by
    have hnobody : ∀ k, Exchange.new.holds k = false := fun k => by
      cases k <;> rfl
    have hidle : Exchange.new.mailbox.ready = .idle := rfl
    exact ⟨by simp [hidle, hnobody], by simp [hnobody]⟩
  progress := by simp [Exchange.new]
  full := by simp [Exchange.new]
  guard := by simp [Exchange.new]
  reading := by simp [Exchange.new]
  receipts := by simp [Exchange.new]
  acked := by simp [Exchange.new]

def ping : Message where
  topic := [0x74#8]
  data := [0x70#8]
  priority := 3
  topic_text := by decide
  data_text := by decide
  topic_fits := by decide
  data_fits := by decide
  priority_fits := by decide

def pingRead : List Action :=
  .publish 0 ping true :: List.replicate 8 (.publisher 0) ++
    .receive :: List.replicate 4 .guarded ++ [.read, .read]

end SlmOs.Router
