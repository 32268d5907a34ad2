import SlmOs.Foundation.Scan
import SlmOs.Slm.Session

/-!
# Sessions and the models they were opened on

A session remembers only a slot number, and `load_slm` fills the first free slot.  As
long as no model is put into a slot that a session still refers to, a prompt looks at
the session's own model or at none.
-/

namespace SlmOs.Slm

open Function Foundation Slm.Runtime Session Option Or Runtime

namespace Runtime

def Holds (s : Runtime) (σ : Session) : Prop :=
  (∃ sid, s.sessions sid = some σ) ∨ ∃ caller, s.opened caller = some σ

/-- The slot that `load_slm` is going to fill is not the slot of a session that has
not been closed. -/
def Unreferenced (s : Runtime) : Act → Prop
  | .load _ _ _ => ∀ i, s.freeSlot = some i →
      ∀ σ, s.Holds σ → σ.state ≠ .closed → σ.modelHandle ≠ i
  | _ => True

def Keeps (s : Runtime) (σ : Session) : Prop :=
  ∀ slm, s.slots σ.modelHandle = some slm → slm.instanceId = σ.boundTo

structure Dated (s : Runtime) : Prop where
  prompt : ∀ p, s.prompt = some p → ∃ σ, s.sessions p.sid = some σ ∧ σ.state = .decoding
  slots : ∀ i slm, s.slots i = some slm → slm.instanceId < s.loads
  held : ∀ σ, s.Holds σ → σ.boundTo < s.loads

structure Bound (s : Runtime) : Prop where
  held : ∀ σ, s.Holds σ → σ.state ≠ .closed → s.Keeps σ
  log : ∀ a ∈ s.log, a.used = a.boundTo

end Runtime

/-! ## Steps of a prompt -/

structure Session.Same (σ σ' : Session) : Prop where
  modelHandle : σ'.modelHandle = σ.modelHandle
  boundTo : σ'.boundTo = σ.boundTo
  closed : σ'.state ≠ .closed → σ.state ≠ .closed

section

variable {p : Prompt} {σ σ' : Session}

/-- What a step of a prompt does: it changes its session and has looked at the model
at most. -/
structure PromptChange (s : Runtime) (p : Prompt) (σ : Session) (s' : Runtime) :
    Prop where
  slots : s'.slots = s.slots
  opened : s'.opened = s.opened
  loads : s'.loads = s.loads
  session : ∃ σ', s'.sessions = update s.sessions p.sid (some σ') ∧
    σ'.modelHandle = σ.modelHandle ∧ σ'.boundTo = σ.boundTo ∧
    ∀ q, s'.prompt = some q → q.sid = p.sid ∧ σ'.state = σ.state
  log : s'.log = s.log ∨ ∃ slm, s.slots σ.modelHandle = some slm ∧
    s'.log = ⟨σ.boundTo, slm.instanceId⟩ :: s.log

theorem forwardStep_same (s : Runtime) (σ : Session) (i : Input) :
    (forwardStep s σ i).1.modelHandle = σ.modelHandle ∧ (forwardStep s σ i).1.boundTo = σ.boundTo ∧
      (forwardStep s σ i).1.state = σ.state := by
  unfold forwardStep
  split
  · exact ⟨rfl, rfl, rfl⟩
  · split <;> exact ⟨rfl, rfl, rfl⟩

theorem note_log (s : Runtime) (σ : Session) :
    (s.note σ).log = s.log ∨ ∃ slm, s.slots σ.modelHandle = some slm ∧
      (s.note σ).log = ⟨σ.boundTo, slm.instanceId⟩ :: s.log := by
  unfold note
  cases hlook : s.look σ with
  | none => exact inl rfl
  | some slm =>
    refine inr ⟨slm, ?_, rfl⟩
    simp only [look, ite_none_right_eq_some] at hlook
    exact hlook.2

theorem note_rest (s : Runtime) (σ : Session) :
    (s.note σ).slots = s.slots ∧ (s.note σ).opened = s.opened ∧
      (s.note σ).loads = s.loads ∧ (s.note σ).sessions = s.sessions := by
  unfold note
  split <;> exact ⟨rfl, rfl, rfl, rfl⟩

theorem promptChange_goto (hs : s₁ = s ∨ s₁ = s.note σ) (hsid : q.sid = p.sid)
    (hh : σ'.modelHandle = σ.modelHandle) (hb : σ'.boundTo = σ.boundTo)
    (hst : σ'.state = σ.state) : PromptChange s p σ (s₁.goto q σ' pc) := by
  obtain ⟨hslots, hopened, hloads, hsessions⟩ := note_rest s σ
  rcases hs with rfl | rfl
  · exact ⟨rfl, rfl, rfl, ⟨σ', by rw [← hsid]; rfl, hh, hb, fun r hr => by
      cases hr
      exact ⟨hsid, hst⟩⟩, inl rfl⟩
  refine ⟨hslots, hopened, hloads, ⟨σ', ?_, hh, hb, fun r hr => ?_⟩, note_log s σ⟩
  · rw [← hsid, ← hsessions]
    rfl
  cases hr
  exact ⟨hsid, hst⟩

theorem promptChange_finish (hs : s₁ = s ∨ s₁ = s.note σ) (hh : σ'.modelHandle = σ.modelHandle)
    (hb : σ'.boundTo = σ.boundTo) : PromptChange s p σ (s₁.finish p σ' r) := by
  obtain ⟨hslots, hopened, hloads, hsessions⟩ := note_rest s σ
  rcases hs with rfl | rfl
  · exact ⟨rfl, rfl, rfl, ⟨σ', rfl, hh, hb, nofun⟩, inl rfl⟩
  refine ⟨hslots, hopened, hloads, ⟨σ', ?_, hh, hb, nofun⟩, note_log s σ⟩
  rw [← hsessions]
  rfl

theorem promptStep_change (s : Runtime) (p : Prompt) (σ : Session) (i : Input) :
    PromptChange s p σ (promptStep s p σ i) := by
  obtain ⟨hh, hb, hst⟩ := forwardStep_same s σ i
  unfold promptStep
  split
  · split
    · exact promptChange_finish (inl rfl) rfl rfl
    · split
      · exact promptChange_goto (inr rfl) rfl rfl rfl rfl
      · exact promptChange_finish (inl rfl) rfl rfl
  · split
    · exact promptChange_goto (inl rfl) rfl rfl rfl rfl
    · exact promptChange_finish (inl rfl) rfl rfl
  · split
    · exact promptChange_finish (inl rfl) rfl rfl
    · exact promptChange_goto (inl rfl) rfl rfl rfl rfl
  · exact promptChange_goto (inr rfl) rfl hh hb hst
  · exact promptChange_goto (inr rfl) rfl rfl rfl rfl
  · repeat' split
    all_goals first
      | exact promptChange_finish (inl rfl) rfl rfl
      | exact promptChange_goto (inl rfl) rfl rfl rfl rfl
  dsimp only
  split
  · exact promptChange_goto (inr rfl) rfl hh hb hst
  · exact promptChange_finish (inr rfl) hh hb

/-! ## All steps -/

structure Effect (s : Runtime) (a : Act) (s' : Runtime) : Prop where
  held : ∀ σ', s'.Holds σ' → (∃ σ, s.Holds σ ∧ σ.Same σ') ∨ s'.slots = s.slots ∧
      ∃ slm, s.slots σ'.modelHandle = some slm ∧ σ'.boundTo = slm.instanceId
  slots : ∀ j slm, s'.slots j = some slm → s.slots j = some slm ∨
    (∃ info v t, a = .load info v t) ∧ s.freeSlot = some j ∧
      slm.instanceId = s.loads ∧ s'.loads = s.loads + 1
  loads : s.loads ≤ s'.loads
  log : s'.log = s.log ∨ ∃ σ slm, s.Holds σ ∧ σ.state ≠ .closed ∧ s.slots σ.modelHandle = some slm ∧
    s'.log = ⟨σ.boundTo, slm.instanceId⟩ :: s.log
  prompt : ∀ p, s'.prompt = some p → ∃ σ, s'.sessions p.sid = some σ ∧ σ.state = .decoding

theorem some_of_update_none {τ : Type} {f : Nat → Option τ} {i j : Nat} {x : τ}
    (h : update f i none j = some x) : f j = some x := by
  by_cases hj : j = i
  · simp [hj] at h
  · rwa [update_of_ne hj] at h

theorem Session.Same.refl (σ : Session) : σ.Same σ := ⟨rfl, rfl, id⟩

theorem Session.same_reset (σ : Session) : σ.Same σ.reset :=
  ⟨rfl, rfl, fun h hc => h (by simp [reset, hc])⟩

theorem Session.same_requestStop (σ : Session) : σ.Same σ.requestStop := ⟨rfl, rfl, id⟩

theorem Session.same_close (σ : Session) : σ.Same σ.close := ⟨rfl, rfl, fun h => absurd rfl h⟩

theorem holds_setSession {s s' : Runtime} {sid : Nat} (hold : s.sessions sid = some σ)
    (hsame : σ.Same σ') (hsessions : s'.sessions = update s.sessions sid (some σ'))
    (hopened : s'.opened = s.opened) :
    ∀ τ', s'.Holds τ' → (∃ τ, s.Holds τ ∧ τ.Same τ') ∨ s'.slots = s.slots ∧
      ∃ slm, s.slots τ'.modelHandle = some slm ∧ τ'.boundTo = slm.instanceId := by
  rintro τ' (⟨k, hk⟩ | ⟨c, hc⟩)
  · rw [hsessions] at hk
    by_cases hks : k = sid
    · subst hks
      rw [update_self] at hk
      cases hk
      exact inl ⟨σ, inl ⟨k, hold⟩, hsame⟩
    rw [update_of_ne hks] at hk
    exact inl ⟨τ', inl ⟨k, hk⟩, .refl τ'⟩
  rw [hopened] at hc
  exact inl ⟨τ', inr ⟨c, hc⟩, .refl τ'⟩

theorem effect_withSession {s s' : Runtime} {a : Act} {sid : Nat} {f : Session → Session}
    (hf : ∀ σ : Session, σ.Same (f σ)) (hstep : s.withSession sid f = some s') : Effect s a s' := by
  simp only [withSession, ite_none_right_eq_some, map_eq_some_iff] at hstep
  obtain ⟨⟨hnone, -⟩, σ, hold, rfl⟩ := hstep
  exact ⟨holds_setSession hold (hf σ) rfl rfl, fun j slm h => inl h, le_rfl,
    inl rfl, fun p hp => by cases hnone.symm.trans hp⟩

theorem Session.open_eq_some {slm : LoadedSlm} {h m : Nat} (ho : Session.open slm h m = some σ) :
    σ.modelHandle = h ∧ σ.boundTo = slm.instanceId := by
  simp only [Session.open, ite_none_left_eq_some, ite_none_right_eq_some, some.injEq] at ho
  obtain ⟨-, -, rfl⟩ := ho
  exact ⟨rfl, rfl⟩

theorem effect_decode {s s' : Runtime} {i : Input} (hs : s.Dated)
    (hstep : step s (.decode i) = some s') : Effect s (.decode i) s' := by
  simp only [step, bind_eq_some_iff, map_eq_some_iff] at hstep
  obtain ⟨p, hp, σ, hold, rfl⟩ := hstep
  obtain ⟨σ₀, hold₀, hdec⟩ := hs.prompt p hp
  obtain rfl : σ₀ = σ := some.inj (hold₀.symm.trans hold)
  have hlive : σ₀.state ≠ .closed := by simp [hdec]
  obtain ⟨hslots, hopened, hloads, ⟨σ', hsessions, hh, hb, hgo⟩, hlog⟩ := promptStep_change s p σ₀ i
  refine ⟨holds_setSession hold ⟨hh, hb, fun _ => hlive⟩ hsessions
    hopened, fun j slm h => inl (by rwa [hslots] at h), hloads.ge, ?_, fun q hq => ?_⟩
  · rcases hlog with hlog | ⟨slm, hslm, hlog⟩
    · exact inl hlog
    · exact inr ⟨σ₀, slm, inl ⟨p.sid, hold⟩, hlive, hslm, hlog⟩
  obtain ⟨hsid, hst⟩ := hgo q hq
  exact ⟨σ', by rw [hsessions, hsid, update_self], hst.trans hdec⟩

theorem step_effect (hs : s.Dated) (hstep : step s a = some s') : Effect s a s' := by
  cases a with
  | load info v t =>
    simp only [step, map_eq_some_iff] at hstep
    obtain ⟨i, hi, rfl⟩ := hstep
    refine ⟨fun σ hσ => inl ⟨σ, hσ, .refl σ⟩, fun j slm hj => ?_, Nat.le_succ _, inl rfl, hs.prompt⟩
    by_cases hji : j = i
    · subst hji
      simp only [update_self, some.injEq] at hj
      exact inr ⟨⟨info, v, t, rfl⟩, hi, by rw [← hj], rfl⟩
    simp only [update_of_ne hji] at hj
    exact inl hj
  | unload index =>
    simp only [step, ite_none_right_eq_some, some.injEq] at hstep
    obtain ⟨-, rfl⟩ := hstep
    exact ⟨fun σ hσ => inl ⟨σ, hσ, .refl σ⟩,
      fun j slm hj => inl (some_of_update_none hj), le_rfl, inl rfl, hs.prompt⟩
  | «open» caller h m =>
    simp only [step, ite_none_right_eq_some, map_eq_some_iff, bind_eq_some_iff] at hstep
    obtain ⟨-, σ, ⟨slm, hslm, hopen⟩, rfl⟩ := hstep
    obtain ⟨hh, hb⟩ := open_eq_some hopen
    refine ⟨?_, fun j slm hj => inl hj, le_rfl, inl rfl, hs.prompt⟩
    rintro τ (⟨sid, hτ⟩ | ⟨c, hτ⟩)
    · exact inl ⟨τ, inl ⟨sid, hτ⟩, .refl τ⟩
    by_cases hc : c = caller
    · subst hc
      simp only [update_self] at hτ
      cases hτ
      exact inr ⟨rfl, slm, by rw [hh, hslm], hb⟩
    simp only [update_of_ne hc] at hτ
    exact inl ⟨τ, inr ⟨c, hτ⟩, .refl τ⟩
  | insert caller =>
    simp only [step, ite_none_right_eq_some, map_eq_some_iff] at hstep
    obtain ⟨hnone, σ, hσ, rfl⟩ := hstep
    split
    · rename_i sid hsid
      refine ⟨?_, fun j slm hj => inl hj, le_rfl, inl rfl, fun p hp => by
          cases hnone.symm.trans hp⟩
      · rintro τ (⟨k, hk⟩ | ⟨c, hc⟩)
        · by_cases hks : k = sid
          · subst hks
            simp only [setSession, update_self] at hk
            cases hk
            exact inl ⟨σ, inr ⟨caller, hσ⟩, .refl σ⟩
          · simp only [setSession, update_of_ne hks] at hk
            exact inl ⟨τ, inl ⟨k, hk⟩, .refl τ⟩
        · exact inl ⟨τ, inr ⟨c, some_of_update_none hc⟩, .refl τ⟩
    refine ⟨?_, fun j slm hj => inl hj, le_rfl, inl rfl, hs.prompt⟩
    rintro τ (⟨k, hk⟩ | ⟨c, hc⟩)
    · exact inl ⟨τ, inl ⟨k, hk⟩, .refl τ⟩
    · exact inl ⟨τ, inr ⟨c, some_of_update_none hc⟩, .refl τ⟩
  | reset sid => exact effect_withSession same_reset hstep
  | stop sid => exact effect_withSession same_requestStop hstep
  | close sid => exact effect_withSession same_close hstep
  | remove sid =>
    simp only [step, ite_none_right_eq_some, some.injEq] at hstep
    obtain ⟨⟨hnone, -⟩, rfl⟩ := hstep
    refine ⟨?_, fun j slm hj => inl hj, le_rfl, inl rfl, fun p hp => by
      cases hnone.symm.trans hp⟩
    rintro τ (⟨k, hk⟩ | ⟨c, hc⟩)
    · exact inl ⟨τ, inl ⟨k, some_of_update_none hk⟩, .refl τ⟩
    · exact inl ⟨τ, inr ⟨c, hc⟩, .refl τ⟩
  | prompt sid cfg =>
    simp only [step, ite_none_right_eq_some, bind_eq_some_iff, some.injEq] at hstep
    obtain ⟨-, σ, hold, hopen, rfl⟩ := hstep
    have hsame : σ.Same { σ with state := .decoding, stopFlag := false } :=
      ⟨rfl, rfl, fun _ => by simp [hopen]⟩
    refine ⟨holds_setSession hold hsame rfl rfl,
      fun j slm hj => inl hj, le_rfl, inl rfl, fun p hp => ?_⟩
    cases hp
    exact ⟨_, update_self .., rfl⟩
  | decode i => exact effect_decode hs hstep

/-! ## Runs -/

theorem Runtime.Dated.step (h : s.Dated) (hstep : Slm.step s a = some s') : s'.Dated := by
  have he := step_effect h hstep
  refine ⟨he.prompt, fun j slm hj => ?_, fun σ' hσ' => ?_⟩
  · rcases he.slots j slm hj with hold | ⟨-, -, hid, hloads⟩
    · exact (h.slots j slm hold).trans_le he.loads
    · omega
  rcases he.held σ' hσ' with ⟨σ, hσ, hsame⟩ | ⟨-, slm, hslm, hb⟩
  · rw [hsame.boundTo]
    exact (h.held σ hσ).trans_le he.loads
  rw [hb]
  exact (h.slots _ slm hslm).trans_le he.loads

theorem Runtime.not_holds_new (σ : Session) : ¬ new.Holds σ := by
  rintro (⟨_, h⟩ | ⟨_, h⟩)
  · cases h
  · cases h

theorem Runtime.dated_new : new.Dated where
  prompt := nofun
  slots := nofun
  held := fun σ h => absurd h (not_holds_new σ)

theorem Runtime.dated_run {ok : Runtime → Act → Prop} (hrun : Run Slm.step ok new s) : s.Dated :=
  Run.invariant (fun _ _ _ h _ hstep => Runtime.Dated.step h hstep) dated_new hrun

theorem Runtime.Bound.step (h : s.Bound) (hd : s.Dated)
    (hok : s.Unreferenced a) (hstep : Slm.step s a = some s') : s'.Bound := by
  have he := step_effect hd hstep
  refine ⟨fun σ' hσ' hlive slm hslm => ?_, fun x hx => ?_⟩
  · rcases he.held σ' hσ' with ⟨σ, hσ, hsame⟩ | ⟨hslots, slm₀, hslm₀, hb⟩
    · have hσlive := hsame.closed hlive
      rw [hsame.modelHandle] at hslm
      rw [hsame.boundTo]
      rcases he.slots _ slm hslm with hold | ⟨⟨info, v, t, rfl⟩, hfree, -, -⟩
      · exact h.held σ hσ hσlive slm hold
      · exact absurd rfl (hok _ hfree σ hσ hσlive)
    · rw [hslots, hslm₀] at hslm
      cases hslm
      exact hb.symm
  rcases he.log with hlog | ⟨σ, slm, hσ, hσlive, hslm, hlog⟩
  · exact h.log x (hlog ▸ hx)
  rw [hlog] at hx
  rcases List.mem_cons.mp hx with rfl | hx
  · exact h.held σ hσ hσlive slm hslm
  · exact h.log x hx

theorem Runtime.bound_new : new.Bound where
  held := fun σ h => absurd h (not_holds_new σ)
  log := nofun

theorem Runtime.bound_run (hrun : Run Slm.step Runtime.Unreferenced new s) : s.Bound :=
  (Run.invariant (I := fun s => s.Dated ∧ s.Bound)
    (fun _ _ _ h hok hstep => ⟨h.1.step hstep, h.2.step h.1 hok hstep⟩)
    ⟨dated_new, bound_new⟩ hrun).2

theorem exec_foreign (hsid : sid < slmMaxSessions) (hold : s.sessions sid = some σ)
    (hlive : σ.state ≠ .closed) (hnone : s.prompt = none) (hfree : s.freeSlot = some σ.modelHandle)
    (info : ArchInfo) (v : Nat) (cfg : DecodeConfig) (i : Input) :
    ∃ s', exec step s [.load info v true, .reset sid, .prompt sid cfg, .decode i] =
      some s' ∧ s'.log = ⟨σ.boundTo, s.loads⟩ :: s.log := by
  have hlt := (find?_range_some hfree).1
  simp [exec, step, hfree, withSession, hnone, hsid, hold, setSession,
    reset, hlive, goto, promptStep, look, hlt, note]

end

/-- If no model is put into a slot that a session still refers to, every look of a
prompt at a model is at the one its session was opened on.  Any other load lets the
next prompt look at the new model. -/
theorem prompts_keep_model {s : Runtime} (hrun : Run step Runtime.Unreferenced new s) :
    (∀ a ∈ s.log, a.used = a.boundTo) ∧
    ∀ sid σ, sid < slmMaxSessions → s.sessions sid = some σ → σ.state ≠ .closed →
      s.prompt = none → s.freeSlot = some σ.modelHandle →
      ∀ info v cfg i, ∃ s',
        exec step s [.load info v true, .reset sid, .prompt sid cfg, .decode i] =
          some s' ∧ ∃ a ∈ s'.log, a.used ≠ a.boundTo := by
  refine ⟨(bound_run hrun).log, fun sid σ hsid hold hlive hnone hfree info v cfg i => ?_⟩
  obtain ⟨s', hexec, hlog⟩ := exec_foreign hsid hold hlive hnone hfree info v cfg i
  refine ⟨s', hexec, ⟨σ.boundTo, s.loads⟩, by simp [hlog], ?_⟩
  exact ((dated_run hrun).held σ (inl ⟨sid, hold⟩)).ne'

def tiny : ArchInfo := ⟨1, 1, 1, 1, 1, 1, 8⟩

def input : Input := ⟨[7], true, true, 7, true⟩

def ownModel : List Act :=
  [.load tiny 8 true, .open 0 0 8, .insert 0, .prompt 0 ⟨1, 2, 64⟩, .decode input,
    .decode input, .decode input]

theorem prompts_keep_model_own : ∃ s, exec step new ownModel = some s ∧ s.log = [⟨0, 0⟩, ⟨0, 0⟩] ∧
      ∀ a ∈ s.log, a.used = a.boundTo := by
  have hlog : (exec step new ownModel).map log = some [⟨0, 0⟩, ⟨0, 0⟩] := by decide
  obtain ⟨s, hexec, hlog⟩ := map_eq_some_iff.mp hlog
  have halong : Along step Runtime.Unreferenced new ownModel := by
    refine ⟨fun i _ σ hσ => absurd hσ (not_holds_new σ), ?_⟩
    exact Along.of_mem (fun a ha s => by
      fin_cases ha <;> trivial) _
  exact ⟨s, hexec, hlog, (prompts_keep_model (run_of_exec _ _ _ _ _ halong hexec)).1⟩

/-- The model is unloaded and another one loaded before the session is used. -/
def otherModel : List Act :=
  [.load tiny 8 true, .open 0 0 8, .insert 0, .unload 0, .load tiny 8 true,
    .prompt 0 ⟨1, 2, 64⟩, .decode input, .decode input, .decode input]

/-- Tokenizer and weights of the new model serve the old session. -/
theorem prompt_on_other_model : (exec step new otherModel).map log = some [⟨0, 1⟩, ⟨0, 1⟩] := by
  decide

end SlmOs.Slm
