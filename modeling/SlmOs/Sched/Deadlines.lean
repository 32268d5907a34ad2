import Mathlib.Data.List.DropRight
import SlmOs.Foundation.Ring

/-!
# Deadline statistics

The counters that `sched_ai_record_completion` keeps in `kernel/sched/sched.c`
and that the AI scheduler reads: a rolling window over the last hundred
completions of tasks with a deadline, and the summed latency.  The window is a
ring of outcomes with a running number of misses.  Its counters are 32-bit and
run free, and the size of the ring does not divide `2 ^ 32`.
-/

namespace SlmOs.Sched

open Foundation List Nat

def deadlineWindow : Nat := 100

structure DeadlineStats where
  missCount : Nat
  totalCount : Nat
  window : Nat → Nat
  windowIdx : Nat

structure LatencyStats where
  cumulativeNs : Nat
  count : Nat
  deriving DecidableEq, Repr

structure AiStats where
  deadline : DeadlineStats
  latency : LatencyStats

def AiStats.atBoot : AiStats := ⟨⟨0, 0, fun _ => 0, 0⟩, ⟨0, 0⟩⟩

structure TaskTimes where
  arrivalTimeNs : Nat
  deadlineNs : Nat
  completionTimeNs : Nat
  deriving DecidableEq, Repr

def DeadlineStats.record (s : DeadlineStats) (missed : Nat) : DeadlineStats :=
  let idx := s.windowIdx % deadlineWindow
  let kept :=
    if s.totalCount ≥ deadlineWindow then
      (s.missCount + 2 ^ 32 - s.window idx) % 2 ^ 32
    else s.missCount
  { missCount := (kept + missed) % 2 ^ 32
    totalCount := (s.totalCount + 1) % 2 ^ 32
    window := Function.update s.window idx missed
    windowIdx := (s.windowIdx + 1) % 2 ^ 32 }

def LatencyStats.record (s : LatencyStats) (latency : Nat) : LatencyStats where
  cumulativeNs := (s.cumulativeNs + latency) % 2 ^ 64
  count := (s.count + 1) % 2 ^ 32

/-- `now` is what `slm_get_time_ns` returns. -/
def schedAiRecordCompletion (s : AiStats) (task : Option TaskTimes) (now : Nat) :
    AiStats × Option TaskTimes :=
  match task with
  | none => (s, none)
  | some t =>
    let deadline :=
      if t.deadlineNs > 0 then
        s.deadline.record (if now > t.deadlineNs then 1 else 0)
      else s.deadline
    let latency :=
      if t.arrivalTimeNs > 0 then
        s.latency.record ((now + 2 ^ 64 - t.arrivalTimeNs) % 2 ^ 64)
      else s.latency
    (⟨deadline, latency⟩, some { t with completionTimeNs := now })

def schedAiGetDeadlineMissRaw (s : AiStats) : Nat × Nat :=
  let ws := s.deadline.totalCount
  (s.deadline.missCount, if ws > deadlineWindow then deadlineWindow else ws)

/-! ## Completions -/

structure Completion where
  task : TaskTimes
  now : Nat
  deriving DecidableEq, Repr

def Completion.HasDeadline (c : Completion) : Prop := 0 < c.task.deadlineNs

instance : DecidablePred Completion.HasDeadline :=
  fun c => inferInstanceAs (Decidable (0 < c.task.deadlineNs))

def Completion.missed (c : Completion) : Bool := c.now > c.task.deadlineNs

def recordAll (s : AiStats) (cs : List Completion) : AiStats :=
  cs.foldl (fun s c => (schedAiRecordCompletion s (some c.task) c.now).1) s

def outcomes (cs : List Completion) : List Bool :=
  (cs.filter fun c => c.HasDeadline).map Completion.missed

theorem outcomes_append (cs ds : List Completion) :
    outcomes (cs ++ ds) = outcomes cs ++ outcomes ds := by
  simp [outcomes]

theorem outcomes_singleton (c : Completion) :
    outcomes [c] = if c.HasDeadline then [c.missed] else [] := by
  by_cases h : c.HasDeadline <;> simp [outcomes, h]

theorem deadline_recordCompletion (s : AiStats) (c : Completion) :
    (schedAiRecordCompletion s (some c.task) c.now).1.deadline =
      (outcomes [c]).foldl (fun d b => d.record b.toNat) s.deadline := by
  rw [outcomes_singleton]
  by_cases h : c.HasDeadline
  · have hpos : c.task.deadlineNs > 0 := h
    simp only [schedAiRecordCompletion, if_pos hpos, if_pos h, foldl_cons,
      foldl_nil, Completion.missed]
    by_cases hlate : c.now > c.task.deadlineNs <;> simp [hlate]
  have hzero : ¬c.task.deadlineNs > 0 := h
  simp only [schedAiRecordCompletion, if_neg hzero, if_neg h, foldl_nil]

theorem deadline_recordAll (s : AiStats) (cs : List Completion) : (recordAll s cs).deadline =
      (outcomes cs).foldl (fun d b => d.record b.toNat) s.deadline := by
  induction cs generalizing s with
  | nil => rfl
  | cons c cs ih =>
    rw [recordAll, foldl_cons, ← recordAll, ih, deadline_recordCompletion,
      ← foldl_append, ← outcomes_append]
    rfl

/-! ## The window -/

theorem rtake_of_le {out : List Bool}
    (h : out.length ≤ deadlineWindow) : out.rtake deadlineWindow = out := by
  rw [List.rtake, Nat.sub_eq_zero_of_le h, drop_zero]

theorem length_rtake {out : List Bool} (h : deadlineWindow ≤ out.length) :
    (out.rtake deadlineWindow).length = deadlineWindow := by
  rw [List.rtake, length_drop]
  omega

theorem rtake_concat (h : deadlineWindow ≤ out.length) (b : Bool) :
    (out ++ [b]).rtake deadlineWindow = (out.rtake deadlineWindow).tail ++ [b] := by
  unfold List.rtake
  rw [tail_drop, length_append, length_singleton,
    drop_append_of_le_length (by unfold deadlineWindow; omega)]
  congr 2
  omega

structure Counts (d : DeadlineStats) (out : List Bool) : Prop where
  total : d.totalCount = out.length % 2 ^ 32
  idx : d.windowIdx = out.length % 2 ^ 32

theorem Counts.record (h : Counts d out)
    (missed : Nat) (b : Bool) : Counts (d.record missed) (out ++ [b]) where
  total := by
    simp [DeadlineStats.record, h.total]
  idx := by
    simp [DeadlineStats.record, h.idx]

structure Tracks (d : DeadlineStats) (out : List Bool) : Prop extends Counts d out where
  window : ringList d.window deadlineWindow (out.length - deadlineWindow)
    (min out.length deadlineWindow) = (out.rtake deadlineWindow).map Bool.toNat
  misses : d.missCount = (out.rtake deadlineWindow).count true

theorem tracks_atBoot : Tracks AiStats.atBoot.deadline [] where
  total := rfl
  idx := rfl
  window := rfl
  misses := rfl

theorem Tracks.record_filling (h : Tracks d out) (hfill : out.length < deadlineWindow) (b : Bool) :
    Tracks (d.record b.toNat) (out ++ [b]) := by
  have hsmall : out.length < 100 := hfill
  have htotal : d.totalCount = out.length := by
    rw [h.total, mod_eq_of_lt (by omega)]
  have hidx : d.windowIdx % deadlineWindow = out.length := by
    rw [h.idx, mod_eq_of_lt (a := out.length) (by omega), mod_eq_of_lt hfill]
  have hlen : (out ++ [b]).length = out.length + 1 := by simp
  have hcount := count_le_length (a := true) (l := out)
  have hwindow := h.window
  have hmisses := h.misses
  rw [rtake_of_le hfill.le] at hwindow hmisses
  rw [Nat.sub_eq_zero_of_le hfill.le, Nat.min_eq_left hfill.le] at hwindow
  refine ⟨h.toCounts.record _ _, ?_, ?_⟩
  · rw [hlen, Nat.sub_eq_zero_of_le hfill, Nat.min_eq_left hfill,
      rtake_of_le (by omega), map_append, ← hwindow]
    have hcell : (0 + out.length) % deadlineWindow = out.length := by
      rw [zero_add, mod_eq_of_lt hfill]
    rw [ringList_push d.window _ hfill, hcell]
    · simp [DeadlineStats.record, hidx]
    intro j _ hne
    rw [hcell] at hne
    simp [DeadlineStats.record, hidx, hne]
  rw [rtake_of_le (by omega), count_append]
  simp only [DeadlineStats.record, htotal, if_neg (Nat.not_le_of_lt hfill), hmisses]
  rw [Nat.mod_eq_of_lt (by cases b <;> simp <;> omega)]
  cases b <;> simp

theorem Tracks.record_full (h : Tracks d out) (hfull : deadlineWindow ≤ out.length)
    (hlt : out.length < 2 ^ 32) (b : Bool) : Tracks (d.record b.toNat) (out ++ [b]) := by
  have hcap : 0 < deadlineWindow := by decide
  have htotal : d.totalCount = out.length := by rw [h.total, mod_eq_of_lt hlt]
  have hidx : d.windowIdx % deadlineWindow = (out.length - deadlineWindow) % deadlineWindow := by
    rw [h.idx, mod_eq_of_lt hlt, ← mod_eq_sub_mod hfull]
  have hlen : (out ++ [b]).length = out.length + 1 := by simp
  have hwindow := h.window
  rw [min_eq_right hfull] at hwindow
  obtain ⟨a, l, hrtake⟩ := exists_cons_of_ne_nil
    (ne_nil_of_length_pos (by rw [length_rtake hfull]; exact hcap))
  have hoverwritten : d.window ((out.length - deadlineWindow) % deadlineWindow) = a.toNat := by
    rw [hrtake, map_cons] at hwindow
    have hpop := ringList_pop d.window deadlineWindow (out.length - deadlineWindow)
      (deadlineWindow - 1)
    rw [Nat.sub_add_cancel hcap, hwindow] at hpop
    exact (List.cons.inj hpop).1.symm
  have hcount : l.count true + 1 ≤ 100 := by
    have hlength := length_rtake hfull
    rw [hrtake, length_cons] at hlength
    have := count_le_length (a := true) (l := l)
    unfold deadlineWindow at hlength
    omega
  refine ⟨h.toCounts.record _ _, ?_, ?_⟩
  · rw [hlen, Nat.min_eq_right (by omega), Nat.sub_add_comm hfull,
      ringList_shift d.window _ hcap, hwindow, rtake_concat hfull]
    · simp [DeadlineStats.record, hidx, map_tail]
    · intro j _ hne
      simp [DeadlineStats.record, hidx, hne]
  rw [rtake_concat hfull, hrtake, tail_cons, count_append]
  have ha : (a :: l).count true = l.count true + a.toNat := by cases a <;> simp
  have hb : [b].count true = b.toNat := by cases b <;> rfl
  simp only [DeadlineStats.record, htotal, if_pos hfull, hidx, hoverwritten, h.misses,
    hrtake, ha, hb]
  have hle := Bool.toNat_le b
  generalize a.toNat = x
  omega

theorem Tracks.record (h : Tracks d out)
    (hlt : out.length < 2 ^ 32) (b : Bool) : Tracks (d.record b.toNat) (out ++ [b]) := by
  rcases lt_or_ge out.length deadlineWindow with hfill | hfull
  · exact h.record_filling hfill b
  · exact h.record_full hfull hlt b

theorem tracks_outcomes (hlen : out.length ≤ 2 ^ 32) :
    Tracks (out.foldl (fun d b => d.record b.toNat) AiStats.atBoot.deadline) out := by
  induction out using List.reverseRecOn with
  | nil => exact tracks_atBoot
  | append_singleton out b ih =>
    rw [length_append, length_singleton] at hlen
    rw [foldl_append]
    exact (ih (by omega)).record (by omega) b

theorem counts_outcomes (out : List Bool) :
    Counts (out.foldl (fun d b => d.record b.toNat) AiStats.atBoot.deadline) out := by
  induction out using List.reverseRecOn with
  | nil => exact tracks_atBoot.toCounts
  | append_singleton out b ih =>
    rw [foldl_append]
    exact ih.record _ b

/-! ## What is published -/

/-- The misses among the last `min n 100` outcomes, and the number of these. -/
def PublishesWindow (cs : List Completion) : Prop :=
  schedAiGetDeadlineMissRaw (recordAll AiStats.atBoot cs) =
    (((outcomes cs).rtake deadlineWindow).count true, min (outcomes cs).length deadlineWindow)

theorem publishesWindow_of_lt (h : (outcomes cs).length < 2 ^ 32) : PublishesWindow cs := by
  have htracks := tracks_outcomes h.le
  rw [← deadline_recordAll] at htracks
  unfold PublishesWindow schedAiGetDeadlineMissRaw
  rw [htracks.misses, htracks.total, mod_eq_of_lt h, min_def]
  simp only [Prod.mk.injEq, true_and]
  split <;> split <;> omega

theorem samples_of_wrap (h : (outcomes cs).length = 2 ^ 32) :
    (schedAiGetDeadlineMissRaw (recordAll AiStats.atBoot cs)).2 = 0 := by
  have hcounts := counts_outcomes (outcomes cs)
  rw [← deadline_recordAll] at hcounts
  simp [schedAiGetDeadlineMissRaw, hcounts.total, h]

theorem not_publishesWindow_of_wrap (h : (outcomes cs).length = 2 ^ 32) : ¬PublishesWindow cs := by
  intro hpub
  have hsamples := samples_of_wrap h
  rw [hpub, h] at hsamples
  have hne : min (2 ^ 32) deadlineWindow ≠ 0 := by decide
  exact hne hsamples

theorem exists_outcomes_length (cs : List Completion)
    (h : k ≤ (outcomes cs).length) : ∃ done, done <+: cs ∧ (outcomes done).length = k := by
  induction cs using List.reverseRecOn with
  | nil => exact ⟨[], nil_prefix, (le_zero.mp h).symm⟩
  | append_singleton cs c ih =>
    by_cases hk : k ≤ (outcomes cs).length
    · obtain ⟨done, hpre, hlen⟩ := ih hk
      exact ⟨done, hpre.trans (prefix_append _ _), hlen⟩
    refine ⟨cs ++ [c], prefix_rfl, ?_⟩
    rw [outcomes_append, length_append] at h ⊢
    have hone : (outcomes [c]).length ≤ 1 := by
      rw [outcomes, length_map]
      exact length_filter_le _ _
    omega

/--
The published figures are those of the last hundred completions, from boot on,
exactly until the counters wrap.
-/
theorem deadline_window_published (cs : List Completion) :
    (∀ done, done <+: cs → PublishesWindow done) ↔ (outcomes cs).length < 2 ^ 32 := by
  constructor
  · intro hpub
    by_contra hlen
    obtain ⟨done, hpre, hdone⟩ := exists_outcomes_length cs (Nat.le_of_not_lt hlen)
    exact not_publishesWindow_of_wrap hdone (hpub done hpre)
  rintro hlen done ⟨rest, rfl⟩
  rw [outcomes_append, length_append] at hlen
  exact publishesWindow_of_lt (by omega)

/-- A task that arrived at 1 ns and was done at 2 ns, 8 ns before its deadline. -/
def onTime : Completion := ⟨⟨1, 10, 0⟩, 2⟩

theorem samples_lost_at_wrap : schedAiGetDeadlineMissRaw
        (recordAll AiStats.atBoot (List.replicate (2 ^ 32) onTime)) ≠
      (((outcomes (List.replicate (2 ^ 32) onTime)).rtake deadlineWindow).count true,
        min (outcomes (List.replicate (2 ^ 32) onTime)).length deadlineWindow) := by
  apply not_publishesWindow_of_wrap
  have hall : ∀ n, outcomes (List.replicate n onTime) = List.replicate n false := by
    intro n
    simp [outcomes, onTime, Completion.HasDeadline, Completion.missed]
  rw [hall, length_replicate]

end SlmOs.Sched
