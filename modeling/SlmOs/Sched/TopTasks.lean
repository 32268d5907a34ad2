import SlmOs.Sched.Current

/-!
# The cache of the top tasks

`ai_update_top_tasks` walks the run queues and keeps eight tasks of the highest effective
priority in a staging buffer, each with its generation.
-/

namespace SlmOs.Sched

open List

def aiStateNumTasks : Nat := 8

/-- The search for the first entry of the lowest priority, from `staging[i]` on. -/
def findMin {α : Type} (pri : α → Nat) : List α → Nat → Nat × Nat → Nat × Nat
  | [], _, best => best
  | x :: l, i, best => findMin pri l (i + 1) (if pri x < best.2 then (i, pri x) else best)

/-- What the loop body does with one task. -/
def offer {α : Type} (pri : α → Nat) (staging : List α) (x : α) : List α :=
  if staging.length < aiStateNumTasks then staging ++ [x]
  else
    match staging with
    | [] => []
    | y :: l =>
      let best := findMin pri l 1 (0, pri y)
      if best.2 < pri x then (y :: l).set best.1 x else y :: l

def aiUpdateTopTasks (k : Kernel) : List (Nat × Nat) :=
  (List.range k.cpuCount).foldl (fun staging c =>
    (k.rq c).queue.foldl (fun staging t =>
      offer (fun e => (k.task e.1).effectivePriority) staging (t, (k.task t).generation))
      staging) []

def queued (k : Kernel) : List Nat := (List.range k.cpuCount).flatMap fun c => (k.rq c).queue

section

variable {α : Type} {pri : α → Nat} {seen staging : List α}

theorem findMin_spec (pri : α → Nat) (l : List α) {i : Nat} (best : Nat × Nat)
    (hl : staging.drop i = l)
    (hbest : ∃ m, staging[best.1]? = some m ∧ pri m = best.2) :
    (∃ m, staging[(findMin pri l i best).1]? = some m ∧ pri m = (findMin pri l i best).2) ∧
      (findMin pri l i best).2 ≤ best.2 ∧ ∀ x ∈ l, (findMin pri l i best).2 ≤ pri x := by
  induction l generalizing i best with
  | nil => exact ⟨hbest, le_refl _, by simp⟩
  | cons x l ih =>
    have hx : staging[i]? = some x := by rw [← head?_drop, hl, head?_cons]
    have hl : staging.drop (i + 1) = l := by rw [← drop_drop, hl, drop_one, tail_cons]
    rw [findMin]
    split
    · obtain ⟨hfound, hle, hrest⟩ := ih (i, pri x) hl ⟨x, hx, rfl⟩
      exact ⟨hfound, by omega, forall_mem_cons.mpr ⟨hle, hrest⟩⟩
    · obtain ⟨hfound, hle, hrest⟩ := ih best hl hbest
      exact ⟨hfound, hle, forall_mem_cons.mpr ⟨by omega, hrest⟩⟩

/-- As many as there is room for are kept, and nothing that is left out has a higher priority. -/
structure Top (pri : α → Nat) (seen staging : List α) : Prop where
  kept : staging <+~ seen
  length : staging.length = min aiStateNumTasks seen.length
  above : ∀ x ∈ seen, x ∉ staging → ∀ y ∈ staging, pri x ≤ pri y

theorem Top.offer (h : Top pri seen staging) (x : α) :
    Top pri (seen ++ [x]) (offer pri staging x) := by
  have hlen := h.length
  unfold Sched.offer
  split
  · have hperm := (h.kept.perm_of_length_le (by omega)).append_right [x]
    refine ⟨hperm.subperm, ?_, fun z hz hnot => absurd (hperm.mem_iff.mpr hz) hnot⟩
    simp only [length_append, length_singleton]
    omega
  rename_i hfull
  split
  · simp [aiStateNumTasks] at hfull
  rename_i y l
  have hdrop : (y :: l).drop 1 = l := rfl
  obtain ⟨⟨m, hm, hpri⟩, hy, hl⟩ := findMin_spec pri l (0, pri y) hdrop ⟨y, rfl, rfl⟩
  dsimp only
  generalize findMin pri l 1 (0, pri y) = best at *
  have hmin : ∀ z ∈ y :: l, pri m ≤ pri z := hpri ▸ forall_mem_cons.mpr ⟨hy, hl⟩
  obtain ⟨hlt, rfl⟩ := List.getElem?_eq_some_iff.mp hm
  split
  · have hset := set_perm_cons_eraseIdx hlt x
    have hrest := (eraseIdx_sublist (y :: l) best.1).subperm.trans h.kept
    have hkept := hset.subperm.trans ((subperm_cons x).mpr hrest)
    refine ⟨hkept.trans (perm_append_singleton x seen).symm.subperm, ?_,
      fun z hz hnot w hw => ?_⟩
    · simp only [length_set, length_append]
      omega
    obtain ⟨hzx, hze⟩ := not_or.mp fun hzs => hnot (hset.mem_iff.mpr (mem_cons.mpr hzs))
    have hz := (mem_append.mp hz).resolve_right (by simpa using hzx)
    have hzm : pri z ≤ pri (y :: l)[best.1] := by
      by_cases hzs : z ∈ y :: l
      · have hzs := (getElem_cons_eraseIdx_perm hlt).mem_iff.mpr hzs
        rw [(mem_cons.mp hzs).resolve_right hze]
      · exact h.above z hz hzs _ (getElem_mem hlt)
    rcases mem_cons.mp (hset.mem_iff.mp hw) with rfl | hw
    · omega
    · exact hzm.trans (hmin w (mem_of_mem_eraseIdx hw))
  · refine ⟨h.kept.trans (sublist_append_left seen [x]).subperm, ?_, fun z hz hnot w hw => ?_⟩
    · simp only [length_append]
      omega
    rcases mem_append.mp hz with hz | hz
    · exact h.above z hz hnot w hw
    · have hle := hmin w hw
      rw [mem_singleton.mp hz]
      omega

theorem Top.foldl (h : Top pri seen staging) (l : List α) :
    Top pri (seen ++ l) (l.foldl (Sched.offer pri) staging) := by
  induction l generalizing seen staging with
  | nil => simpa using h
  | cons x l ih => simpa using ih (h.offer x)

end

/--
The cache holds the queued tasks, up to eight, with their generations, so that none that is left
out has a higher priority.
-/
theorem top_tasks_published (k : Kernel) :
    (aiUpdateTopTasks k).length = min aiStateNumTasks (queued k).length ∧
    (∀ e ∈ aiUpdateTopTasks k, e.1 ∈ queued k ∧ e.2 = (k.task e.1).generation) ∧
    ((queued k).Nodup → ((aiUpdateTopTasks k).map Prod.fst).Nodup) ∧
    ∀ t ∈ queued k, t ∉ (aiUpdateTopTasks k).map Prod.fst → ∀ e ∈ aiUpdateTopTasks k,
      (k.task t).effectivePriority ≤ (k.task e.1).effectivePriority := by
  let entry (t : Nat) : Nat × Nat := (t, (k.task t).generation)
  have heq : aiUpdateTopTasks k = ((queued k).map entry).foldl
      (offer fun e => (k.task e.1).effectivePriority) [] := by
    rw [foldl_map, queued, foldl_flatMap]
    rfl
  have h := (⟨.refl [], rfl, by simp⟩ : Top (fun e : Nat × Nat =>
    (k.task e.1).effectivePriority) [] []).foldl ((queued k).map entry)
  rw [nil_append, ← heq] at h
  refine ⟨by simpa using h.length, fun e he => ?_, fun hnodup => ?_, fun t ht hnot e he => ?_⟩
  · obtain ⟨t, ht, rfl⟩ := mem_map.mp (h.kept.subset he)
    exact ⟨ht, rfl⟩
  · obtain ⟨l, hl, hsub⟩ := h.kept
    have hfst : ((queued k).map entry).map Prod.fst = queued k := by simp [Function.comp_def, entry]
    exact (hl.map Prod.fst).nodup_iff.mp ((hfst ▸ hnodup).sublist (hsub.map Prod.fst))
  · exact h.above (entry t) (mem_map_of_mem ht) (fun hm => hnot (mem_map_of_mem hm)) e he

def twoQueues : Kernel :=
  let k := (machine 2).kernel
  ((k.setTask 3 { k.task 3 with effectivePriority := 5 }).setQueue 0 [1]).setQueue 1 [3]

theorem top_tasks_unsorted : aiUpdateTopTasks twoQueues = [(1, 0), (3, 0)] ∧
    (twoQueues.task 1).effectivePriority < (twoQueues.task 3).effectivePriority := by
  decide

end SlmOs.Sched
