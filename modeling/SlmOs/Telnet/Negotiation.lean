import SlmOs.Foundation.Transition
import SlmOs.Telnet.Parser

/-!
# Two telnet parsers back to back

Each parser reads what the other one sends.  The bytes on their way are weighed by the commands
in them, and what answers a command weighs less than the command does.
-/

namespace SlmOs.Telnet

open Foundation Function List

/-- The parsers, and the bytes on their way to each. -/
structure Link where
  parser : Bool → TelnetParser
  channel : Bool → Bytes

/-- The side `d` takes a byte. -/
def Link.step (l : Link) (d : Bool) : Option Link :=
  match l.channel d with
  | [] => none
  | b :: bs =>
    let r := telnetRxByte (l.parser d) b
    some ⟨update l.parser d r.1,
      update (update l.channel d bs) (!d) (l.channel (!d) ++ (sent r.2).flatten)⟩

/-! ## Weights -/

/-- How many messages follow from a command at most. -/
def rank (cmd opt : UInt8) : Nat :=
  if opt = telnetOptNaws ∨ opt = telnetOptTtype then
    if cmd = telnetWill then 4 else if cmd = telnetDo then 2
    else if cmd = telnetWont ∨ cmd = telnetAyt then 1 else 0
  else if cmd = telnetDo then 3 else if cmd = telnetWill then 2
  else if cmd = telnetDont ∨ cmd = telnetAyt then 1 else 0

/-- The rank of a command at the start, whose option may not have been sent yet. -/
def first : Bytes → Nat
  | a :: b :: bs =>
    if a = telnetIac then bs.head?.elim (rank b telnetOptTtype + rank b telnetOptEcho) (rank b)
    else 0
  | _ => 0

def weight : Bytes → Nat
  | [] => 0
  | b :: bs => first (b :: bs) + weight bs

/-- What has been read of a command. -/
def TelnetState.begun : TelnetState → Bytes
  | .iac => [telnetIac]
  | .optWill => [telnetIac, telnetWill]
  | .optWont => [telnetIac, telnetWont]
  | .optDo => [telnetIac, telnetDo]
  | .optDont => [telnetIac, telnetDont]
  | .data | .cr | .sb | .sbIac => []

def Link.load (l : Link) (d : Bool) : Nat :=
  (l.channel d).length + 8 * weight ((l.parser d).state.begun ++ l.channel d)

/-- A byte that begins a message, and so does not end a command. -/
abbrev Begins (b : UInt8) : Prop :=
  b ∉ [telnetDo, telnetWill, telnetDont, telnetWont, telnetAyt]

theorem rank_le (cmd opt : UInt8) :
    rank cmd opt ≤ rank cmd telnetOptTtype + rank cmd telnetOptEcho := by
  rw [rank]
  split
  · exact Nat.le_add_right (rank cmd telnetOptTtype) _
  · exact Nat.le_add_left (rank cmd telnetOptEcho) _

theorem weight_append (hm : Begins (m.headD 0)) (bs : Bytes) :
    weight (bs ++ m) ≤ weight bs + weight m := by
  induction bs with
  | nil => simp [weight]
  | cons a bs ih =>
    have hfirst : first (a :: (bs ++ m)) ≤ first (a :: bs) := by
      match bs, m with
      | bs, [] => rw [append_nil]
      | [], x :: m => cases m <;> simp_all [first, Begins, rank]
      | [b], x :: m =>
        have := rank_le b x
        simp only [cons_append, nil_append, first]
        split <;> simp_all
      | b :: c :: bs, x :: m => exact Nat.le_refl _
    simp only [cons_append, weight]
    omega

theorem weight_le (p : Bytes) (b : UInt8) (bs : Bytes) : weight bs ≤ weight (p ++ b :: bs) := by
  induction p with
  | nil => exact Nat.le_add_left _ _
  | cons a p ih => exact ih.trans (Nat.le_add_left _ _)

/-! ## Answers -/

/-- What is sent weighs less than `r`. -/
def Costs (effects : List Effect) (r : Nat) : Prop :=
  let m := (sent effects).flatten
  Begins (m.headD 0) ∧ m.length + 8 * weight m ≤ 8 * r

theorem Costs.silent (h : sent effects = []) (r : Nat) : Costs effects r := by
  rw [Costs, h]
  exact ⟨(by decide : Begins 0), Nat.zero_le _⟩

theorem Costs.iac3 (hcmd : cmd ≠ telnetIac) (h : rank cmd opt < r) :
    Costs [sendIac3 cmd opt] r := by
  refine ⟨(by decide : Begins telnetIac), ?_⟩
  simp [sendIac3, sent, Effect.sent, weight, first, hcmd]
  omega

/-- An option that is refused is not asked for again. -/
theorem rank_refusal (opt : UInt8) :
    rank telnetWont opt < rank telnetDo opt ∧ rank telnetDont opt < rank telnetWill opt := by
  unfold rank
  split <;> decide

section

variable (flags : NegotiatedFlags) (opt : UInt8)

theorem handleOptDo_costs : Costs (handleOptDo flags opt).2 (rank telnetDo opt) := by
  unfold handleOptDo
  split_ifs with hecho _ hsga
  any_goals exact .silent rfl _
  · rw [hecho]
    exact .iac3 (by decide) (by decide)
  · rw [hsga]
    exact .iac3 (by decide) (by decide)
  · exact .iac3 (by decide) (rank_refusal opt).1

theorem handleOptDont_costs : Costs (handleOptDont flags opt).2 (rank telnetDont opt) := by
  unfold handleOptDont
  split_ifs with hecho _ hsga
  any_goals exact .silent rfl _
  · rw [hecho]
    exact .iac3 (by decide) (by decide)
  · rw [hsga]
    exact .iac3 (by decide) (by decide)

theorem handleOptWont_costs : Costs (handleOptWont flags opt).2 (rank telnetWont opt) := by
  unfold handleOptWont
  split_ifs with hnaws _ httype
  any_goals exact .silent rfl _
  · rw [hnaws]
    exact .iac3 (by decide) (by decide)
  · rw [httype]
    exact .iac3 (by decide) (by decide)

theorem handleOptWill_costs : Costs (handleOptWill flags opt).2 (rank telnetWill opt) := by
  unfold handleOptWill
  split_ifs with hnaws _ httype
  any_goals exact .silent rfl _
  · rw [hnaws]
    exact .iac3 (by decide) (by decide)
  · -- the request for the terminal type goes with the answer
    rw [httype]
    exact ⟨(by decide : Begins telnetIac), (by decide : 9 + 8 * 2 ≤ 8 * 4)⟩
  · exact .iac3 (by decide) (rank_refusal opt).2

end

theorem unanswered {st st' : TelnetState} (b : UInt8) (bs : Bytes) (hsent : sent effects = [])
    (h : st'.begun = [] ∨ st'.begun = st.begun ++ [b]) :
    ∃ r, Costs effects r ∧ weight (st'.begun ++ bs) + r ≤ weight (st.begun ++ b :: bs) := by
  refine ⟨0, .silent hsent 0, ?_⟩
  rcases h with h | h
  · rw [h]
    exact weight_le st.begun b bs
  · rw [h, append_assoc]
    exact Nat.le_refl _

theorem answered (h : Costs effects (rank cmd opt)) (bs : Bytes) :
    ∃ r, Costs effects r ∧ weight bs + r ≤ weight (telnetIac :: cmd :: opt :: bs) := by
  have hfirst : first (telnetIac :: cmd :: opt :: bs) = rank cmd opt := rfl
  refine ⟨_, h, ?_⟩
  rw [weight, weight, weight, hfirst]
  omega

theorem first_ayt (bs : Bytes) : 1 ≤ first (telnetIac :: telnetAyt :: bs) := by
  cases bs with
  | nil => decide
  | cons opt bs =>
    change 1 ≤ rank telnetAyt opt
    unfold rank
    split <;> decide

theorem telnetRxByte_costs (tp : TelnetParser) (b : UInt8) (bs : Bytes) :
    ∃ r, Costs (telnetRxByte tp b).2 r ∧
      weight ((telnetRxByte tp b).1.state.begun ++ bs) + r ≤
        weight (tp.state.begun ++ b :: bs) := by
  unfold telnetRxByte
  split
  case h_3 hst =>
    rw [hst]
    by_cases hayt : b = telnetAyt
    · subst hayt
      have hmarker : Costs [.sendToPeer aytMarker] 1 := ⟨by decide, by decide⟩
      have hfirst := first_ayt bs
      refine ⟨1, hmarker, ?_⟩
      change weight bs + 1 ≤ weight (telnetIac :: telnetAyt :: bs)
      rw [weight, weight]
      omega
    · unfold handleIacCmd
      split_ifs <;> exact unanswered b bs rfl (by simp_all [TelnetState.begun])
  case h_4 hst => exact hst ▸ answered (handleOptWill_costs _ b) bs
  case h_5 hst => exact hst ▸ answered (handleOptWont_costs _ b) bs
  case h_6 hst => exact hst ▸ answered (handleOptDo_costs _ b) bs
  case h_7 hst => exact hst ▸ answered (handleOptDont_costs _ b) bs
  case h_9 hst =>
    have hsubneg : sent (handleSubneg tp.subneg.1) = [] := by
      unfold handleSubneg
      repeat' split
      all_goals rfl
    rw [hst]
    split_ifs
    · exact unanswered b bs hsubneg (.inl rfl)
    all_goals exact unanswered b bs rfl (.inl rfl)
  all_goals
    rename_i hst
    rw [hst]
    split_ifs <;> exact unanswered b bs rfl (by simp_all [TelnetState.begun])

/-! ## Runs -/

theorem Link.step_load (h : Link.step l d = some l') :
    l'.load false + l'.load true < l.load false + l.load true := by
  unfold Link.step at h
  split at h
  · cases h
  · rename_i b bs hch
    cases h
    obtain ⟨r, ⟨hhead, hle⟩, hown⟩ := telnetRxByte_costs (l.parser d) b bs
    have hother := weight_append hhead ((l.parser (!d)).state.begun ++ l.channel (!d))
    have hlen : (l.channel d).length = bs.length + 1 := by rw [hch, length_cons]
    cases d <;> simp [Link.load, hch] at * <;> omega

/--
However the bytes are delivered, two parsers come to rest: no more of them can be delivered than
there are, with eight for every message that may still follow.
-/
theorem negotiation_ends (l : Link) (ds : List Bool) :
    ds.length ≤ l.load false + l.load true ∨ exec Link.step l ds = none := by
  induction ds generalizing l with
  | nil => exact .inl (Nat.zero_le _)
  | cons d ds ih =>
    cases hstep : l.step d with
    | none => exact .inr (by rw [exec, hstep])
    | some l' =>
      have hlt := Link.step_load hstep
      rw [exec, hstep]
      refine (ih l').imp_left fun hle => ?_
      rw [length_cons]
      omega

end SlmOs.Telnet
