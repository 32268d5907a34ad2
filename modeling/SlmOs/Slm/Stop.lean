import SlmOs.Slm.Session

/-!
# Stopping a prompt

`rust_slm_prompt` and `rust_slm_stop` of `runtime/src/lib.rs`, each as a call that
takes `SESSION_LOCK` by spinning.  Both go through `with_session`, so a prompt keeps
the lock until `run_prompt` has returned, and the flag that the decoder looks at
before each chunk and each token cannot be written in the meantime.
-/

namespace SlmOs.Slm

open Foundation Slm.Runtime
open Option

/-- Where a call of `rust_slm_prompt` or `rust_slm_stop` is. -/
inductive Call where
  | idle
  | promptSpin (sid : Nat) (cfg : DecodeConfig)
  | promptEnter (sid : Nat) (cfg : DecodeConfig)
  | prompting
  | promptUnlock (ok : Bool)
  | promptClear (ok : Bool)
  | stopSpin (sid : Nat)
  | stopWrite (sid : Nat)
  | stopUnlock (ok : Bool)
  | returned (code : Int)
  deriving DecidableEq, Repr

structure World where
  rt : Runtime
  /-- Who has `SESSION_LOCK`. -/
  lock : Option Nat
  /-- `BUSY` of the callback bridge. -/
  busy : Bool
  calls : Nat → Call

def World.new : World := ⟨.new, none, false, fun _ => .idle⟩

def World.at (w : World) (t : Nat) (c : Call) : World :=
  { w with calls := Function.update w.calls t c }

inductive WorldAct where
  /-- `accepted`: the pointer, the length and the encoding of the text pass. -/
  | callPrompt (t sid : Nat) (cfg : DecodeConfig) (accepted : Bool)
  | callStop (t sid : Nat)
  /-- The next step of the call of `t`. -/
  | go (t : Nat) (i : Input)
  /-- A whole call by somebody else that is neither a prompt nor a stop. -/
  | other (a : Act)
  deriving DecidableEq, Repr

def Call.isOver : Call → Bool
  | .idle => true
  | .returned _ => true
  | _ => false

def code (ok : Bool) : Int := if ok then 0 else -1

/-- The next step of a call.  A failed `compare_exchange_weak` changes nothing. -/
def advance (w : World) (t : Nat) (i : Input) : Call → Option World
  | .promptSpin sid cfg =>
    match w.lock with
    | some _ => some w
    | none => some { w.at t (.promptEnter sid cfg) with lock := some t }
  | .promptEnter sid cfg =>
    match step w.rt (.prompt sid cfg) with
    | none => some (w.at t (.promptUnlock false))
    | some rt => some { w.at t .prompting with rt := rt }
  | .prompting =>
    (step w.rt (.decode i)).map fun rt =>
      if rt.prompt.isSome then { w with rt := rt }
      else { w.at t (.promptUnlock (rt.returned.head?.bind id).isSome) with rt := rt }
  | .promptUnlock ok => some { w.at t (.promptClear ok) with lock := none }
  | .promptClear ok => some { w.at t (.returned (code ok)) with busy := false }
  | .stopSpin sid =>
    match w.lock with
    | some _ => some w
    | none => some { w.at t (.stopWrite sid) with lock := some t }
  | .stopWrite sid =>
    match w.rt.sessions sid with
    | none => some (w.at t (.stopUnlock false))
    | some σ =>
      some { w.at t (.stopUnlock true) with rt := w.rt.setSession sid σ.requestStop }
  | .stopUnlock ok => some { w.at t (.returned (code ok)) with lock := none }
  | .idle => none
  | .returned _ => none

/-- A call of `load_slm`, `unload_slm` or `Session::open` does not look at the table
of sessions; the others wait for its lock. -/
def Act.needsTable : Act → Option Bool
  | .load _ _ _ => some false
  | .unload _ => some false
  | .open _ _ _ => some false
  | .insert _ => some true
  | .reset _ => some true
  | .close _ => some true
  | .remove _ => some true
  | .stop _ => none
  | .prompt _ _ => none
  | .decode _ => none

def worldStep (w : World) : WorldAct → Option World
  | .callPrompt t sid cfg accepted =>
    if (w.calls t).isOver then
      -- `try_install` fails while another prompt has the bridge
      if !accepted || w.busy then some (w.at t (.returned (-1)))
      else if sid < slmMaxSessions then
        some { w.at t (.promptSpin sid cfg) with busy := true }
      else some { w.at t (.promptClear false) with busy := true }
    else none
  | .callStop t sid =>
    if (w.calls t).isOver then
      if sid < slmMaxSessions then some (w.at t (.stopSpin sid))
      else some (w.at t (.returned (-1)))
    else none
  | .go t i => advance w t i (w.calls t)
  | .other a =>
    match a.needsTable with
    | none => none
    | some needs =>
      if needs && w.lock.isSome then none
      else (step w.rt a).map fun rt => { w with rt := rt }

def PromptPc.inLoop : PromptPc → Bool
  | .tokenize => false
  | _ => true

def Prompt.prefilled (p : Prompt) : Nat :=
  match p.pc with
  | .tokenize => 0
  | .prefill rest _ => p.prefillTokens - rest.length
  | _ => p.prefillTokens

def Prompt.chunk (p : Prompt) : Nat :=
  if p.cfg.prefillChunk = 0 then 64 else p.cfg.prefillChunk

def During (w : World) (_ : WorldAct) : Prop := w.rt.prompt.isSome = true

/-- The stop that `t` has called takes effect on the prompt `p`. -/
structure TakesEffect (w : World) (t : Nat) (p : Prompt) : Prop where
  /-- The prompt can see the flag. -/
  visible : ∃ w' q σ, Run worldStep During w w' ∧ w'.rt.prompt = some q ∧
    w'.rt.sessions p.sid = some σ ∧ σ.stopFlag = true
  /-- The call can return before the prompt does. -/
  returns : ∃ w', Run worldStep During w w' ∧ w'.rt.prompt.isSome = true ∧ w'.calls t = .returned 0
  /-- However it goes on, the prompt returns with its session stopped, after at most
  one more token or chunk. -/
  stops : ∀ w', Run worldStep During w w' → w'.rt.prompt = none →
    ∃ σ stats, w'.rt.sessions p.sid = some σ ∧ σ.state = .stopped ∧
      w'.rt.returned.head? = some (some stats) ∧
      stats.decodeTokens ≤ p.decodeTokens + 1 ∧
      stats.prefillTokens ≤ p.prefilled + p.chunk

/-! ## What a prompt does to its session -/

section

variable {s s' : Runtime} {p : Prompt} {σ : Session} {i : Input} {a : Act}

structure Session.Undisturbed (σ : Session) : Prop where
  state : σ.state = .decoding
  flag : σ.stopFlag = false

def Unstopped (s : Runtime) (sid : Nat) : Prop :=
  ∃ σ, s.sessions sid = some σ ∧ σ.stopFlag = false ∧
    ∀ q, s.prompt = some q → q.sid = sid ∧ σ.state = .decoding

def LeftOpen (s : Runtime) (sid : Nat) : Prop :=
  s.prompt = none → ∃ σ, s.sessions sid = some σ ∧ σ.state = .open

theorem forwardStep_undisturbed (h : σ.Undisturbed) : (forwardStep s σ i).1.Undisturbed := by
  unfold forwardStep
  split
  · exact h
  split
  · exact ⟨h.state, h.flag⟩
  · exact h

theorem goto_unstopped (pc : PromptPc) (h : σ.Undisturbed) :
    Unstopped (s.goto p σ pc) p.sid ∧ LeftOpen (s.goto p σ pc) p.sid := by
  refine ⟨⟨σ, ?_, h.flag, ?_⟩, ?_⟩
  · simp [goto, setSession]
  · intro q hq
    cases hq
    exact ⟨rfl, h.state⟩
  intro hnone
  cases hnone

theorem finish_unstopped (hflag : σ.stopFlag = false) (hstate : σ.state = .open) :
    Unstopped (s.finish p σ r) p.sid ∧ LeftOpen (s.finish p σ r) p.sid := by
  refine ⟨⟨σ, ?_, hflag, ?_⟩, fun _ => ⟨σ, ?_, hstate⟩⟩
  · simp [finish, setSession]
  · intro q hq
    cases hq
  · simp [finish, setSession]

theorem promptStep_unstopped (h : σ.Undisturbed) :
    Unstopped (promptStep s p σ i) p.sid ∧ LeftOpen (promptStep s p σ i) p.sid := by
  have hdone : ∀ (s : Runtime) (r : Option DecodeStats) (σ : Session), σ.Undisturbed →
      Unstopped (s.finish p (σ.complete p .open) r) p.sid ∧
        LeftOpen (s.finish p (σ.complete p .open) r) p.sid :=
    fun s r σ h => finish_unstopped (σ := σ.complete p .open) h.flag rfl
  have hforward := forwardStep_undisturbed (s := s) (i := i) h
  rcases hpc : p.pc with _ | ⟨_ | ⟨token, rest⟩, _ | left⟩ | token | ⟨token, keep⟩ | token <;>
    simp only [promptStep, hpc, h.flag, Bool.false_eq_true, if_false]
  case tokenize =>
    split
    · exact finish_unstopped rfl rfl
    split
    · exact goto_unstopped (p := { p with prefillTokens := i.ids.length }) _ h
    · exact finish_unstopped rfl rfl
  case prefill.nil.zero | prefill.nil.succ =>
    split
    · exact goto_unstopped _ h
    · exact hdone s _ σ h
  case prefill.cons.zero => exact goto_unstopped _ h
  case prefill.cons.succ =>
    exact goto_unstopped (p := { p with logits := (forwardStep s σ i).2 }) _ hforward
  case emit =>
    exact goto_unstopped (p := { p with decodeTokens := p.decodeTokens + 1 }) _ h
  case next =>
    split_ifs
    · exact hdone s _ σ h
    · exact hdone s _ σ h
    · exact hdone s _ σ h
    · exact hdone s _ σ h
    · exact goto_unstopped _ h
  case forward =>
    split
    · exact goto_unstopped _ hforward
    · exact hdone _ _ _ hforward

theorem step_needing (hneeds : a.needsTable ≠ none) (h : step s a = some s') :
    s'.sessions = s.sessions ∧ s'.prompt = s.prompt ∨ s.prompt = none ∧ s'.prompt = none := by
  cases a with
  | load info vocabSize hasTokenizer =>
    obtain ⟨i, -, rfl⟩ := map_eq_some_iff.mp h
    exact .inl ⟨rfl, rfl⟩
  | unload index =>
    simp only [step, ite_none_right_eq_some, some.injEq] at h
    obtain ⟨-, rfl⟩ := h
    exact .inl ⟨rfl, rfl⟩
  | «open» caller modelHandle maxCtx =>
    simp only [step, ite_none_right_eq_some, map_eq_some_iff] at h
    obtain ⟨-, σ, -, rfl⟩ := h
    exact .inl ⟨rfl, rfl⟩
  | insert caller =>
    simp only [step, ite_none_right_eq_some, map_eq_some_iff] at h
    obtain ⟨hnone, σ, -, rfl⟩ := h
    exact .inr ⟨hnone, by split <;> exact hnone⟩
  | remove sid =>
    simp only [step, ite_none_right_eq_some, some.injEq] at h
    obtain ⟨⟨hnone, -⟩, rfl⟩ := h
    exact .inr ⟨hnone, hnone⟩
  | reset sid | stop sid | close sid =>
    simp only [step, withSession, ite_none_right_eq_some, map_eq_some_iff] at h
    obtain ⟨⟨hnone, -⟩, σ, -, rfl⟩ := h
    exact .inr ⟨hnone, hnone⟩
  | prompt sid cfg | decode i => exact absurd rfl hneeds

end

/-! ## The lock -/

/-- The call is between acquiring `SESSION_LOCK` and releasing it. -/
def Call.hasLock : Call → Bool
  | .promptEnter _ _ => true
  | .prompting => true
  | .promptUnlock _ => true
  | .stopWrite _ => true
  | .stopUnlock _ => true
  | _ => false

structure World.Sound (w : World) : Prop where
  holder : ∀ t, (w.calls t).hasLock = true → w.lock = some t
  prompting : w.rt.prompt.isSome = true → ∃ t, w.calls t = .prompting
  unstopped : ∀ p, w.rt.prompt = some p → p.sid < slmMaxSessions ∧ Unstopped w.rt p.sid

section

variable {w w' : World} {t u : Nat} {c : Call} {a : WorldAct} {i : Input}

@[simp] theorem World.at_self : (w.at t c).calls t = c := by simp [World.at]

theorem World.at_of_ne (h : u ≠ t) : (w.at t c).calls u = w.calls u := by
  simp [World.at, h]

theorem worldStep_other {a : Act} (hstep : worldStep w (.other a) = some w') :
    a.needsTable ≠ none ∧ ∃ rt, step w.rt a = some rt ∧ { w with rt := rt } = w' := by
  simp only [worldStep] at hstep
  split at hstep
  · cases hstep
  rename_i hneeds
  split_ifs at hstep
  exact ⟨by simp [hneeds], map_eq_some_iff.mp hstep⟩

section

variable (h : w.Sound)
include h

theorem World.Sound.outside (hout : (w.calls t).hasLock = false)
    (hc : c.hasLock = false) (busy : Bool) :
    World.Sound { w.at t c with busy := busy } where
  holder := by
    intro u hu
    by_cases hut : u = t
    · subst hut
      simp [World.at, hc] at hu
    · exact h.holder u (by simpa [World.at, hut] using hu)
  prompting := by
    intro hp
    obtain ⟨u, hu⟩ := h.prompting hp
    refine ⟨u, ?_⟩
    have hut : u ≠ t := by
      rintro rfl
      simp [hu, Call.hasLock] at hout
    simpa [World.at, hut] using hu
  unstopped := h.unstopped

theorem World.Sound.acquire (hfree : w.lock = none) :
    World.Sound { w.at t c with lock := some t } where
  holder := by
    intro u hu
    by_cases hut : u = t
    · rw [hut]
    have hlocked := h.holder u (by simpa [World.at, hut] using hu)
    simp [hfree] at hlocked
  prompting := by
    intro hp
    obtain ⟨u, hu⟩ := h.prompting hp
    have hlocked := h.holder u (by simp [hu, Call.hasLock])
    simp [hfree] at hlocked
  unstopped := h.unstopped

section

variable (ht : (w.calls t).hasLock = true)
include ht

theorem World.Sound.alone (hu : (w.calls u).hasLock = true) : u = t := by
  have h₁ := h.holder t ht
  have h₂ := h.holder u hu
  rw [h₁] at h₂
  exact (some.inj h₂).symm

theorem World.Sound.inside (rt : Runtime) (lock : Option Nat)
    (hlock : c.hasLock = true → lock = some t) (hp : rt.prompt.isSome = true → c = .prompting)
    (hun : ∀ p, rt.prompt = some p → p.sid < slmMaxSessions ∧ Unstopped rt p.sid) :
    World.Sound { w.at t c with rt := rt, lock := lock } where
  holder := by
    intro u hu
    by_cases hut : u = t
    · subst hut
      exact hlock (by simpa [World.at] using hu)
    · exact absurd (h.alone ht (by simpa [World.at, hut] using hu)) hut
  prompting := fun hsome => ⟨t, by simp [World.at, hp hsome]⟩
  unstopped := hun

theorem World.Sound.no_prompt (hne : w.calls t ≠ .prompting) : w.rt.prompt = none := by
  cases hp : w.rt.prompt with
  | none => rfl
  | some p =>
    obtain ⟨u, hu⟩ := h.prompting (by simp [hp])
    have hut := h.alone ht (by simp [hu, Call.hasLock] : (w.calls u).hasLock = true)
    rw [hut] at hu
    exact absurd hu hne

end

theorem World.Sound.decode {rt : Runtime} {p : Prompt} (hp : w.rt.prompt = some p)
    (hstep : step w.rt (.decode i) = some rt) : Unstopped rt p.sid ∧ LeftOpen rt p.sid := by
  obtain ⟨-, σ, hσ, hflag, hstate⟩ := h.unstopped p hp
  have hrt : promptStep w.rt p σ i = rt := by simpa [step, hp, hσ] using hstep
  rw [← hrt]
  exact promptStep_unstopped ⟨(hstate p hp).2, hflag⟩

theorem World.Sound.advance (hstep : advance w t i (w.calls t) = some w') : w'.Sound := by
  cases hc : w.calls t with
  | idle | returned code => simp [Slm.advance, hc] at hstep
  | promptSpin sid cfg | stopSpin sid =>
    cases hlock : w.lock with
    | none =>
      simp only [Slm.advance, hc, hlock, some.injEq] at hstep
      exact hstep ▸ h.acquire hlock
    | some u =>
      simp only [Slm.advance, hc, hlock, some.injEq] at hstep
      exact hstep ▸ h
  | promptClear ok =>
    simp only [Slm.advance, hc, some.injEq] at hstep
    exact hstep ▸ h.outside (by simp [hc, Call.hasLock]) rfl false
  | promptUnlock ok | stopUnlock ok =>
    have ht : (w.calls t).hasLock = true := by simp [hc, Call.hasLock]
    have hnone := h.no_prompt ht (by simp [hc])
    simp only [Slm.advance, hc, some.injEq] at hstep
    exact hstep ▸ h.inside ht w.rt none (by simp [Call.hasLock]) (by simp [hnone]) (by simp [hnone])
  | stopWrite sid =>
    have ht : (w.calls t).hasLock = true := by simp [hc, Call.hasLock]
    have hnone := h.no_prompt ht (by simp [hc])
    have hlock := h.holder t ht
    cases hσ : w.rt.sessions sid with
    | none =>
      simp only [Slm.advance, hc, hσ, some.injEq] at hstep
      exact hstep ▸ h.inside ht w.rt w.lock (fun _ => hlock) (by simp [hnone]) (by simp [hnone])
    | some σ =>
      simp only [Slm.advance, hc, hσ, some.injEq] at hstep
      exact hstep ▸ h.inside ht (w.rt.setSession sid σ.requestStop) w.lock
        (fun _ => hlock) (by simp [setSession, hnone])
        (by simp [setSession, hnone])
  | promptEnter sid cfg =>
    have ht : (w.calls t).hasLock = true := by simp [hc, Call.hasLock]
    have hnone := h.no_prompt ht (by simp [hc])
    have hlock := h.holder t ht
    cases hrt : step w.rt (.prompt sid cfg) with
    | none =>
      simp only [Slm.advance, hc, hrt, some.injEq] at hstep
      exact hstep ▸ h.inside ht w.rt w.lock (fun _ => hlock) (by simp [hnone]) (by simp [hnone])
    | some rt =>
      simp only [Slm.advance, hc, hrt, some.injEq] at hstep
      refine hstep ▸ h.inside ht rt w.lock (fun _ => hlock) (fun _ => rfl) ?_
      -- the prompt starts with the flag down
      simp only [step] at hrt
      split at hrt
      · rename_i hsid
        obtain ⟨σ, -, hσ⟩ := bind_eq_some_iff.mp hrt
        split at hσ
        · cases hσ
          intro p hp
          cases hp
          exact ⟨hsid.2, (goto_unstopped (p := ⟨sid, cfg, .tokenize, 0, 0, false⟩) _ ⟨rfl, rfl⟩).1⟩
        · cases hσ
      · cases hrt
  | prompting =>
    have ht : (w.calls t).hasLock = true := by simp [hc, Call.hasLock]
    have hlock := h.holder t ht
    simp only [Slm.advance, hc] at hstep
    obtain ⟨rt, hrt, hw⟩ := map_eq_some_iff.mp hstep
    cases hp : w.rt.prompt with
    | none => simp [step, hp] at hrt
    | some p =>
      obtain ⟨hun, -⟩ := h.decode hp hrt
      split at hw
      · rename_i hsome
        subst hw
        refine ⟨h.holder, fun _ => ⟨t, hc⟩, fun q hq => ?_⟩
        obtain ⟨σ, hσ, hflag, hsid⟩ := hun
        rw [(hsid q hq).1]
        exact ⟨(h.unstopped p hp).1, σ, hσ, hflag, hsid⟩
      rename_i hnone
      exact hw ▸ h.inside ht rt w.lock (fun _ => hlock) (fun hsome => absurd hsome hnone)
        (fun q hq => absurd (by simp [hq]) hnone)

theorem World.Sound.step (hstep : worldStep w a = some w') : w'.Sound := by
  have hover : ∀ t, (w.calls t).isOver = true → (w.calls t).hasLock = false := by
    intro t hover
    cases hc : w.calls t <;> simp_all [Call.isOver, Call.hasLock]
  cases a with
  | callPrompt t sid cfg accepted =>
    simp only [worldStep] at hstep
    split_ifs at hstep with hidle
    · exact some.inj hstep ▸ h.outside (hover t hidle) rfl w.busy
    · exact some.inj hstep ▸ h.outside (hover t hidle) rfl true
    · exact some.inj hstep ▸ h.outside (hover t hidle) rfl true
  | callStop t sid =>
    simp only [worldStep] at hstep
    split_ifs at hstep with hidle <;>
      exact some.inj hstep ▸ h.outside (hover t hidle) rfl w.busy
  | go t i => exact h.advance hstep
  | other a =>
    obtain ⟨hneeds, rt, hrt, rfl⟩ := worldStep_other hstep
    rcases step_needing hneeds hrt with ⟨hsessions, hprompt⟩ | ⟨-, hnone⟩
    · refine ⟨h.holder, by simpa [hprompt] using h.prompting, fun q hq => ?_⟩
      have hold := h.unstopped q (hprompt ▸ hq)
      simpa [Unstopped, hsessions, hprompt] using hold
    · exact ⟨h.holder, by simp [hnone], by simp [hnone]⟩

end

theorem World.sound_new : World.new.Sound where
  holder := by simp [World.new, Call.hasLock]
  prompting := by simp [World.new, Runtime.new]
  unstopped := by simp [World.new, Runtime.new]

/-! ## A stop waits for the prompt -/

/-- What cannot change while the prompt of the session `sid` is running. -/
structure Quiet (w : World) (t sid : Nat) : Prop where
  sound : w.Sound
  waits : w.calls t = .stopSpin sid
  prompt : ∀ q, w.rt.prompt = some q → q.sid = sid
  unstopped : Unstopped w.rt sid
  leftOpen : LeftOpen w.rt sid

variable {sid : Nat}

theorem Quiet.same (h : Quiet w t sid) (hsound : w'.Sound) (hrt : w'.rt = w.rt)
    (hcall : w'.calls t = w.calls t) : Quiet w' t sid where
  sound := hsound
  waits := hcall.trans h.waits
  prompt := hrt ▸ h.prompt
  unstopped := hrt ▸ h.unstopped
  leftOpen := hrt ▸ h.leftOpen

theorem Quiet.advance (h : Quiet w t sid) (hp : w.rt.prompt.isSome = true)
    (hstep : advance w u i (w.calls u) = some w') : Quiet w' t sid := by
  have hsound := h.sound.advance hstep
  obtain ⟨v, hv⟩ := h.sound.prompting hp
  have hlock : w.lock = some v := h.sound.holder v (by simp [hv, Call.hasLock])
  have hinside : (w.calls u).hasLock = true → w.calls u = .prompting := by
    intro hu
    rw [h.sound.alone (by simp [hv, Call.hasLock] : (w.calls v).hasLock = true) hu, hv]
  cases hc : w.calls u with
  | idle | returned code => simp [Slm.advance, hc] at hstep
  | promptSpin sid' cfg | stopSpin sid' =>
    simp only [Slm.advance, hc, hlock, some.injEq] at hstep
    exact hstep ▸ h
  | promptClear ok =>
    have htu : t ≠ u := by
      rintro rfl
      simp [h.waits] at hc
    simp only [Slm.advance, hc] at hstep
    cases hstep
    exact h.same hsound rfl (World.at_of_ne htu)
  | prompting =>
    have htu : t ≠ u := by
      rintro rfl
      simp [h.waits] at hc
    obtain ⟨p, hp⟩ := isSome_iff_exists.mp hp
    simp only [Slm.advance, hc] at hstep
    obtain ⟨rt, hrt, hw⟩ := map_eq_some_iff.mp hstep
    obtain ⟨hun, hopen⟩ := h.sound.decode hp hrt
    rw [h.prompt p hp] at hun hopen
    have hrun : w'.rt = rt ∧ w'.calls t = w.calls t := by
      rw [← hw]
      split
      · exact ⟨rfl, rfl⟩
      · exact ⟨rfl, World.at_of_ne htu⟩
    refine ⟨hsound, hrun.2.trans h.waits, ?_, hrun.1 ▸ hun, hrun.1 ▸ hopen⟩
    rw [hrun.1]
    obtain ⟨σ, -, -, hsid⟩ := hun
    exact fun q hq => (hsid q hq).1
  | _ => simp [hc, Call.hasLock] at hinside

theorem Quiet.step (h : Quiet w t sid) (hp : During w a)
    (hstep : worldStep w a = some w') : Quiet w' t sid := by
  have hsound := h.sound.step hstep
  have hover : ∀ u, (w.calls u).isOver = true → t ≠ u := by
    rintro u hu rfl
    simp [h.waits, Call.isOver] at hu
  cases a with
  | callPrompt u sid' cfg accepted | callStop u sid' =>
    simp only [worldStep] at hstep
    split_ifs at hstep with hidle
    all_goals
      cases hstep
      exact h.same hsound rfl (World.at_of_ne (hover u hidle))
  | go u i => exact h.advance hp hstep
  | other a =>
    obtain ⟨hneeds, rt, hrt, rfl⟩ := worldStep_other hstep
    obtain ⟨hsessions, hprompt⟩ := (step_needing hneeds hrt).resolve_right fun hn =>
      by simp [During, hn.1] at hp
    refine ⟨hsound, h.waits, ?_, ?_, ?_⟩
    · simpa [hprompt] using h.prompt
    · simpa [Unstopped, hsessions, hprompt] using h.unstopped
    · simpa [LeftOpen, hsessions, hprompt] using h.leftOpen

theorem quiet_callStop (hrun : Run worldStep (fun _ _ => True) World.new w)
    (hp : w.rt.prompt = some p) (hcall : worldStep w (.callStop t p.sid) = some w') :
    Quiet w' t p.sid := by
  have hsound : w.Sound :=
    Run.invariant (I := World.Sound) (fun _ _ _ h _ hstep => h.step hstep) World.sound_new hrun
  obtain ⟨hsid, hun⟩ := hsound.unstopped p hp
  have hsound' := hsound.step hcall
  simp only [worldStep, hsid, if_true] at hcall
  split at hcall
  · cases hcall
    refine ⟨hsound', World.at_self, fun q hq => ?_, hun, fun hnone => ?_⟩
    · rw [some.inj (hp.symm.trans hq)]
    · cases hp.symm.trans hnone
  · cases hcall

/-- A stop that is called while the prompt is running never takes effect: until the
prompt has returned the call spins and the flag is down, and then the session is
open. -/
theorem stop_never_takes_effect (w w₁ : World) (t : Nat) (p : Prompt)
    (hrun : Run worldStep (fun _ _ => True) World.new w) (hp : w.rt.prompt = some p)
    (hcall : worldStep w (.callStop t p.sid) = some w₁) :
    ¬ TakesEffect w₁ t p ∧ ∀ w', Run worldStep During w₁ w' → w'.calls t = .stopSpin p.sid ∧
        ∃ σ, w'.rt.sessions p.sid = some σ ∧ σ.stopFlag = false ∧
          (w'.rt.prompt = none → σ.state = .open) := by
  have hquiet : ∀ w', Run worldStep During w₁ w' → Quiet w' t p.sid := fun w' hrun' =>
    Run.invariant (I := fun w => Quiet w t p.sid)
      (fun _ _ _ h hduring hstep => h.step hduring hstep)
      (quiet_callStop hrun hp hcall) hrun'
  constructor
  · intro h
    obtain ⟨w', q, σ, hrun', hq, hσ, hraised⟩ := h.visible
    obtain ⟨σ', hσ', hflag, -⟩ := (hquiet w' hrun').unstopped
    rw [some.inj (hσ.symm.trans hσ'), hflag] at hraised
    cases hraised
  intro w' hrun'
  have h := hquiet w' hrun'
  obtain ⟨σ, hσ, hflag, -⟩ := h.unstopped
  refine ⟨h.waits, σ, hσ, hflag, fun hnone => ?_⟩
  obtain ⟨σ', hσ', hopen⟩ := h.leftOpen hnone
  rw [some.inj (hσ.symm.trans hσ')]
  exact hopen

end

instance (w : World) (a : WorldAct) : Decidable (During w a) :=
  inferInstanceAs (Decidable (_ = true))

def decodeInput : Input := ⟨[7], true, true, 7, true⟩

def intoLoop : List WorldAct :=
  [.other (.load ⟨1, 1, 1, 1, 1, 1, 8⟩ 8 true), .other (.open 0 0 8), .other (.insert 0),
    .callPrompt 0 0 ⟨3, 2, 64⟩ true] ++ List.replicate 6 (.go 0 decodeInput)

/-- The prompt goes on to its third answer while the other caller spins. -/
def untilReturn : List WorldAct :=
  .go 1 decodeInput :: List.replicate 4 (.go 0 decodeInput) ++
    .go 1 decodeInput :: List.replicate 4 (.go 0 decodeInput)

def inLoop : Option World := exec worldStep World.new intoLoop
def stopCalled : Option World := inLoop.bind fun w => worldStep w (.callStop 1 0)
def promptOver : Option World := stopCalled.bind fun w => exec worldStep w untilReturn

theorem stop_never_takes_effect_spins : ∃ w₁,
    stopCalled = some w₁ ∧ ¬ TakesEffect w₁ 1 ⟨0, ⟨3, 2, 64⟩, .emit 7, 1, 0, true⟩ := by
  have hw : inLoop.isSome = true := by decide
  have hw₁ : stopCalled.isSome = true := by decide
  obtain ⟨w, hw⟩ := isSome_iff_exists.mp hw
  obtain ⟨w₁, hw₁⟩ := isSome_iff_exists.mp hw₁
  have hp : inLoop.map (·.rt.prompt) = some (some ⟨0, ⟨3, 2, 64⟩, .emit 7, 1, 0, true⟩) := by
    decide
  have hcall : worldStep w (.callStop 1 0) = some w₁ := by
    simpa [stopCalled, hw] using hw₁
  have hrun := run_exec _ hw
  rw [hw] at hp
  exact ⟨w₁, hw₁, (stop_never_takes_effect w w₁ 1 _ hrun (some.inj hp) hcall).1⟩

/-- Three more answers come after the stop was called, the session is open at the end
and the stop has not even got the lock. -/
theorem stop_ignored : ∃ w₁ w₂,
    inLoop.map (fun w => w.rt.prompt.map fun p => (p.sid, p.pc.inLoop, p.decodeTokens)) =
      some (some (0, true, 0)) ∧
    stopCalled = some w₁ ∧ Run worldStep During w₁ w₂ ∧ w₂.rt.prompt = none ∧
    w₂.rt.returned = [some ⟨1, 3⟩] ∧
    (w₂.rt.sessions 0).map Session.state = some .open ∧
    w₂.calls 1 = .stopSpin 0 ∧
    ¬ TakesEffect w₁ 1 ⟨0, ⟨3, 2, 64⟩, .emit 7, 1, 0, true⟩ := by
  have hw₁ : stopCalled.isSome = true := by decide
  have hw₂ : promptOver.map (fun w => (w.rt.prompt, w.rt.returned,
      (w.rt.sessions 0).map Session.state, w.calls 1)) =
      some (none, [some ⟨1, 3⟩], some .open, .stopSpin 0) := by decide
  obtain ⟨w₁, hw₁⟩ := isSome_iff_exists.mp hw₁
  obtain ⟨w₂, hw₂, hend⟩ := map_eq_some_iff.mp hw₂
  simp only [Prod.mk.injEq] at hend
  obtain ⟨hnone, hreturned, hstate, hspin⟩ := hend
  have halong : ∀ w, stopCalled = some w → Along worldStep During w untilReturn := by
    decide
  have hrun : Run worldStep During w₁ w₂ :=
    run_of_exec _ _ _ _ _ (halong w₁ hw₁) (by simpa [promptOver, hw₁] using hw₂)
  refine ⟨w₁, w₂, by decide, hw₁, hrun, hnone, hreturned, hstate, hspin, fun h => ?_⟩
  obtain ⟨σ, stats, hσ, hstopped, -⟩ := h.stops w₂ hrun hnone
  rw [hσ, map_some, hstopped] at hstate
  cases hstate

end SlmOs.Slm
