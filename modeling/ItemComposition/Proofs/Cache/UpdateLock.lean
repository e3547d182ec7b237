import ItemComposition.Proofs.Cache.Events
import Mathlib.Data.List.Induction

/-!
# One refresh at a time

Calls and loops of a cache take turns through the update lock: who is in a refresh or about to
sweep is first in line (`Orderly`). So refreshes never overlap, and a sweep never falls into a
refresh. The refresh of a loop is cut off when the lifetime of an entry has passed since it began
(`Timely`).

## Key results

- `Orderly.step` / `Timely.step`: what every event keeps
- `refreshing_of_step`: how a task came to be in what remains of a refresh
- `began_of_step`: a task is in a refresh since the event that let it enter
- `one_refresh_at_a_time`: what holds in every state that events lead to
-/

namespace ItemComposition.Cache.State

variable {κ ν σ : Type} {s s' : State κ ν σ}

/-! ## Replacing and dropping tasks -/

theorem nodup_putTask (h : (s.tasks.map Task.id).Nodup) (u : Task κ ν σ) :
    ((s.putTask u).tasks.map Task.id).Nodup := by
  have hSame : (s.putTask u).tasks.map Task.id = s.tasks.map Task.id := by
    simp only [putTask, List.map_map]
    refine List.map_congr_left fun t _ => ?_
    by_cases hId : t.id = u.id <;> simp [hId]
  rwa [hSame]

/-- Only the task of the same number is replaced. -/
theorem mem_tasks_putTask {u v : Task κ ν σ} (h : v ∈ (s.putTask u).tasks) :
    v = u ∨ v ∈ s.tasks ∧ v.id ≠ u.id := by
  simp only [putTask, List.mem_map] at h
  obtain ⟨t, ht, rfl⟩ := h
  by_cases hId : t.id = u.id
  · exact .inl (if_pos hId)
  · rw [if_neg hId]
    exact .inr ⟨ht, hId⟩

theorem mem_putTask_self {t u : Task κ ν σ} (ht : t ∈ s.tasks) (hId : u.id = t.id) :
    u ∈ (s.putTask u).tasks :=
  List.mem_map.2 ⟨t, ht, if_pos hId.symm⟩

theorem mem_putTask_of_ne {u v : Task κ ν σ} (hv : v ∈ s.tasks) (hId : v.id ≠ u.id) :
    v ∈ (s.putTask u).tasks :=
  List.mem_map.2 ⟨v, hv, if_neg hId⟩

theorem mem_tasks_dropTask {id : Nat} {v : Task κ ν σ} :
    v ∈ (s.dropTask id).tasks ↔ v ∈ s.tasks ∧ v.id ≠ id := by
  simp [dropTask]

theorem nodup_dropTask (h : (s.tasks.map Task.id).Nodup) (id : Nat) :
    ((s.dropTask id).tasks.map Task.id).Nodup :=
  h.sublist (List.filter_sublist.map _)

/-- Telling a loop to stop changes neither the numbers of tasks nor how far they are. -/
theorem mem_tasks_stop {id : Nat} {v : Task κ ν σ} (h : v ∈ (s.stop id).tasks) :
    ∃ t ∈ s.tasks, v.id = t.id ∧ v.phase = t.phase ∧ v.role.isLoop = t.role.isLoop := by
  simp only [stop, List.mem_map] at h
  obtain ⟨t, ht, rfl⟩ := h
  refine ⟨t, ht, ?_⟩
  cases hRole : t.role with
  | start | update => simp [hRole]
  | loop nextTick stopped => by_cases hId : t.id = id <;> simp [hId, hRole, Role.isLoop]

theorem map_id_stop (id : Nat) : (s.stop id).tasks.map Task.id = s.tasks.map Task.id := by
  simp only [stop, List.map_map]
  refine List.map_congr_left fun t _ => ?_
  cases hRole : t.role with
  | start | update => simp [hRole]
  | loop nextTick stopped => by_cases hId : t.id = id <;> simp [hId, hRole]

/-! ## Order in the line -/

/-- The tasks have distinct numbers, exactly those that do not rest are in line, each once, and who
works is first. -/
structure Orderly (s : State κ ν σ) : Prop where
  ids_nodup : (s.tasks.map Task.id).Nodup
  id_lt : ∀ t ∈ s.tasks, t.id < s.fresh
  line_nodup : s.line.Nodup
  mem_line : ∀ id, id ∈ s.line ↔ ∃ t ∈ s.tasks, t.id = id ∧ t.phase.isIdle = false
  first : ∀ t ∈ s.tasks, t.phase.isWorking = true → s.line.head? = some t.id

theorem isIdle_of_isWorking {p : Phase κ ν σ} (h : p.isWorking = true) : p.isIdle = false := by
  cases p <;> simp_all [Phase.isWorking, Phase.isIdle]

theorem isWorking_of_began? {t : Task κ ν σ} {began : Nat} (h : t.began? = some began) :
    t.phase.isWorking = true := by
  unfold Task.began? at h
  split at h
  · rename_i hPhase
    rw [hPhase]
    rfl
  · cases h

namespace Orderly

theorem eq_of_id (h : Orderly s) {t u : Task κ ν σ} (ht : t ∈ s.tasks) (hu : u ∈ s.tasks)
    (hId : t.id = u.id) : t = u :=
  List.inj_on_of_nodup_map h.ids_nodup ht hu hId

/-- Two tasks that work are one. -/
theorem eq_of_isWorking (h : Orderly s) {t u : Task κ ν σ} (ht : t ∈ s.tasks) (hu : u ∈ s.tasks)
    (hT : t.phase.isWorking = true) (hU : u.phase.isWorking = true) : t = u := by
  have hHead : some t.id = some u.id := (h.first t ht hT).symm.trans (h.first u hu hU)
  exact h.eq_of_id ht hu (Option.some.inj hHead)

/-- A number is in line if its task does not rest. -/
theorem mem_line_iff (h : Orderly s) {t : Task κ ν σ} (ht : t ∈ s.tasks) :
    t.id ∈ s.line ↔ t.phase.isIdle = false := by
  rw [h.mem_line]
  constructor
  · rintro ⟨u, hu, hId, hIdle⟩
    exact h.eq_of_id hu ht hId ▸ hIdle
  · exact fun hIdle => ⟨t, ht, rfl, hIdle⟩

theorem fresh_not_mem_line (h : Orderly s) : s.fresh ∉ s.line := by
  intro hMem
  obtain ⟨t, ht, hId, -⟩ := (h.mem_line _).1 hMem
  have hLt := h.id_lt t ht
  omega

/-- A task with a fresh number shares it with no other. -/
theorem nodup_append_fresh (h : Orderly s) (role : Role κ) (phase : Phase κ ν σ) :
    ((s.tasks ++ [Task.mk s.fresh role phase]).map Task.id).Nodup := by
  have hNew : s.fresh ∉ s.tasks.map Task.id := by
    intro hMem
    obtain ⟨t, ht, hId⟩ := List.mem_map.1 hMem
    have hLt := h.id_lt t ht
    omega
  rw [List.map_append, List.map_cons, List.map_nil, ← List.concat_eq_append]
  exact List.Nodup.concat hNew h.ids_nodup

theorem id_lt_append_fresh (h : Orderly s) (role : Role κ) (phase : Phase κ ν σ) :
    ∀ t ∈ s.tasks ++ [Task.mk s.fresh role phase], t.id < s.fresh + 1 := by
  intro t ht
  rcases List.mem_append.1 ht with ht | ht
  · exact Nat.lt_succ_of_lt (h.id_lt t ht)
  · rw [List.mem_singleton.1 ht]
    exact Nat.lt_succ_self _

/-- Order depends on the numbers and phases of the tasks and on the line. -/
theorem congr (h : Orderly s) (ids : s'.tasks.map Task.id = s.tasks.map Task.id)
    (same : ∀ v ∈ s'.tasks, ∃ t ∈ s.tasks, v.id = t.id ∧ v.phase = t.phase)
    (line : s'.line = s.line) (fresh : s.fresh ≤ s'.fresh) : Orderly s' where
  ids_nodup := ids ▸ h.ids_nodup
  id_lt v hv := by
    obtain ⟨t, ht, hId, -⟩ := same v hv
    have hLt := h.id_lt t ht
    omega
  line_nodup := line ▸ h.line_nodup
  mem_line id := by
    rw [line, h.mem_line]
    constructor
    · rintro ⟨t, ht, rfl, hIdle⟩
      -- the task of the same number is as far
      have hMem : t.id ∈ s'.tasks.map Task.id := ids ▸ List.mem_map_of_mem ht
      obtain ⟨v, hv, hId⟩ := List.mem_map.1 hMem
      obtain ⟨u, hu, hSame, hPhase⟩ := same v hv
      have hEq : u = t := h.eq_of_id hu ht (hSame.symm.trans hId)
      exact ⟨v, hv, hId, by rw [hPhase, hEq]; exact hIdle⟩
    · rintro ⟨v, hv, rfl, hIdle⟩
      obtain ⟨t, ht, hId, hPhase⟩ := same v hv
      exact ⟨t, ht, hId.symm, hPhase ▸ hIdle⟩
  first v hv hWorks := by
    obtain ⟨t, ht, hId, hPhase⟩ := same v hv
    rw [line, hId]
    exact h.first t ht (hPhase ▸ hWorks)

/-- Order does not depend on the rest of the state. -/
theorem of_eq (h : Orderly s) (tasks : s'.tasks = s.tasks) (line : s'.line = s.line)
    (fresh : s.fresh ≤ s'.fresh) : Orderly s' :=
  h.congr (by rw [tasks]) (fun v hv => ⟨v, tasks ▸ hv, rfl, rfl⟩) line fresh

theorem stop (h : Orderly s) (id : Nat) : Orderly (s.stop id) :=
  h.congr (map_id_stop id)
    (fun v hv => by
      obtain ⟨t, ht, hId, hPhase, -⟩ := mem_tasks_stop hv
      exact ⟨t, ht, hId, hPhase⟩)
    rfl (Nat.le_refl _)

theorem addWaiting (h : Orderly s) (role : Role κ) : Orderly (s.addWaiting role) := by
  refine ⟨h.nodup_append_fresh role .waiting, h.id_lt_append_fresh role .waiting, ?_, ?_, ?_⟩
  · show (s.line ++ [s.fresh]).Nodup
    rw [← List.concat_eq_append]
    exact List.Nodup.concat h.fresh_not_mem_line h.line_nodup
  · intro id
    simp only [State.addWaiting, List.mem_append, List.mem_singleton, h.mem_line]
    constructor
    · rintro (⟨t, ht, hId, hIdle⟩ | rfl)
      · exact ⟨t, .inl ht, hId, hIdle⟩
      · exact ⟨_, .inr rfl, rfl, rfl⟩
    · rintro ⟨t, ht | rfl, hId, hIdle⟩
      · exact .inl ⟨t, ht, hId, hIdle⟩
      · exact .inr hId.symm
  · -- a task that works stays first: the new one goes to the end of the line
    intro t ht hWorks
    simp only [State.addWaiting, List.mem_append, List.mem_singleton] at ht ⊢
    rcases ht with ht | rfl
    · rw [List.head?_append, h.first t ht hWorks]
      rfl
    · cases hWorks

theorem id_lt_putTask (h : Orderly s) {t u : Task κ ν σ} (ht : t ∈ s.tasks) (hId : u.id = t.id) :
    ∀ v ∈ (s.putTask u).tasks, v.id < s.fresh := by
  intro v hv
  rcases mem_tasks_putTask hv with rfl | ⟨hv, -⟩
  · rw [hId]
    exact h.id_lt t ht
  · exact h.id_lt v hv

/-- The first in line may go on to any phase but rest. -/
theorem putFirst (h : Orderly s) {t u : Task κ ν σ} (ht : t ∈ s.tasks) (hId : u.id = t.id)
    (hFirst : s.line.head? = some t.id) (hIdle : u.phase.isIdle = false) :
    Orderly (s.putTask u) where
  ids_nodup := nodup_putTask h.ids_nodup u
  id_lt := h.id_lt_putTask ht hId
  line_nodup := h.line_nodup
  -- the line has the numbers it had; who stands at this one is the task put there
  mem_line id := by
    refine (h.mem_line id).trans ⟨?_, ?_⟩
    · rintro ⟨v, hv, rfl, hBusy⟩
      by_cases hEq : v.id = u.id
      · exact ⟨u, mem_putTask_self ht hId, hEq.symm, hIdle⟩
      · exact ⟨v, mem_putTask_of_ne hv hEq, rfl, hBusy⟩
    · rintro ⟨v, hv, rfl, hBusy⟩
      rcases mem_tasks_putTask hv with rfl | ⟨hv, -⟩
      · refine ⟨t, ht, hId.symm, (h.mem_line_iff ht).1 ?_⟩
        exact List.mem_of_head? hFirst
      · exact ⟨v, hv, rfl, hBusy⟩
  first v hv hWorks := by
    rcases mem_tasks_putTask hv with rfl | ⟨hv, -⟩
    · exact hId ▸ hFirst
    · exact h.first v hv hWorks

/-- When the first in line gives the lock up, it rests or is over, and nobody works. -/
theorem releaseFirst (h : Orderly s) {id : Nat} (hFirst : s.line.head? = some id)
    (ids : (s'.tasks.map Task.id).Nodup) (lt : ∀ v ∈ s'.tasks, v.id < s.fresh)
    (others : ∀ v ∈ s.tasks, v.id ≠ id → v ∈ s'.tasks)
    (rest : ∀ v ∈ s'.tasks, v ∈ s.tasks ∧ v.id ≠ id ∨ v.id = id ∧ v.phase.isIdle = true)
    (line : s'.line = s.line.tail) (fresh : s'.fresh = s.fresh) : Orderly s' := by
  obtain ⟨queue, hLine⟩ : ∃ queue, s.line = id :: queue := by
    cases hCase : s.line with
    | nil => simp [hCase] at hFirst
    | cons a queue =>
      rw [hCase, List.head?_cons, Option.some.injEq] at hFirst
      exact ⟨queue, by rw [hFirst]⟩
  -- numbers stand once in the line, so the first one is nowhere behind
  have hNodup := h.line_nodup
  rw [hLine, List.nodup_cons] at hNodup
  rw [hLine, List.tail_cons] at line
  refine ⟨ids, fresh.symm ▸ lt, line ▸ hNodup.2, ?_, ?_⟩
  · intro j
    rw [line]
    constructor
    · intro hj
      have hMem : j ∈ s.line := hLine ▸ List.mem_cons_of_mem _ hj
      obtain ⟨v, hv, rfl, hBusy⟩ := (h.mem_line j).1 hMem
      have hne : v.id ≠ id := fun hEq => hNodup.1 (hEq ▸ hj)
      exact ⟨v, others v hv hne, rfl, hBusy⟩
    · rintro ⟨v, hv, rfl, hBusy⟩
      rcases rest v hv with ⟨hv, hne⟩ | ⟨-, hIdle⟩
      · have hMem := (h.mem_line_iff hv).2 hBusy
        rw [hLine, List.mem_cons] at hMem
        exact hMem.resolve_left hne
      · simp [hIdle] at hBusy
  · intro v hv hWorks
    rcases rest v hv with ⟨hv, hne⟩ | ⟨-, hIdle⟩
    · -- who works stands first, and that was the task that has gone
      have hHead := h.first v hv hWorks
      rw [hFirst, Option.some.injEq] at hHead
      exact absurd hHead.symm hne
    · simp [isIdle_of_isWorking hWorks] at hIdle

/-- The first in line rests again. -/
theorem restFirst (h : Orderly s) {t : Task κ ν σ} (ht : t ∈ s.tasks)
    (hFirst : s.line.head? = some t.id) : Orderly (s.enterPhase t .idle).release := by
  refine h.releaseFirst hFirst (nodup_putTask h.ids_nodup _) (h.id_lt_putTask ht rfl) ?_ ?_ rfl rfl
  · exact fun v hv hne => mem_putTask_of_ne hv hne
  · intro v hv
    rcases mem_tasks_putTask hv with rfl | hv
    · exact .inr ⟨rfl, rfl⟩
    · exact .inl hv

/-- The first in line is over. -/
theorem dropFirst (h : Orderly s) {id : Nat} (hFirst : s.line.head? = some id) :
    Orderly (s.dropTask id).release :=
  h.releaseFirst hFirst (nodup_dropTask h.ids_nodup id)
    (fun v hv => h.id_lt v (mem_tasks_dropTask.1 hv).1)
    (fun _ hv hne => mem_tasks_dropTask.2 ⟨hv, hne⟩)
    (fun _ hv => .inl (mem_tasks_dropTask.1 hv)) rfl rfl

/-- A loop that rests may end. -/
theorem dropIdle (h : Orderly s) {t : Task κ ν σ} (ht : t ∈ s.tasks)
    (hIdle : t.phase.isIdle = true) : Orderly (s.dropTask t.id) where
  ids_nodup := nodup_dropTask h.ids_nodup _
  id_lt v hv := h.id_lt v (mem_tasks_dropTask.1 hv).1
  line_nodup := h.line_nodup
  mem_line id := by
    refine (h.mem_line id).trans ⟨?_, ?_⟩
    · -- a task that waits or works is not the one that was idle
      rintro ⟨v, hv, hId, hBusy⟩
      refine ⟨v, mem_tasks_dropTask.2 ⟨hv, fun hEq => ?_⟩, hId, hBusy⟩
      rw [h.eq_of_id hv ht hEq, hIdle] at hBusy
      cases hBusy
    · rintro ⟨v, hv, hRest⟩
      exact ⟨v, (mem_tasks_dropTask.1 hv).1, hRest⟩
  first v hv := h.first v (mem_tasks_dropTask.1 hv).1

/-- A new loop rests. -/
theorem launch (h : Orderly s) : Orderly s.launch := by
  refine ⟨h.nodup_append_fresh _ .idle, h.id_lt_append_fresh _ .idle, h.line_nodup, ?_, ?_⟩
  · intro id
    refine (h.mem_line id).trans ?_
    simp only [State.launch, List.mem_append, List.mem_singleton]
    constructor
    · rintro ⟨t, ht, hRest⟩
      exact ⟨t, .inl ht, hRest⟩
    · rintro ⟨t, ht | rfl, hId, hBusy⟩
      · exact ⟨t, ht, hId, hBusy⟩
      · cases hBusy
  · intro t ht hWorks
    simp only [State.launch, List.mem_append, List.mem_singleton] at ht
    rcases ht with ht | rfl
    · exact h.first t ht hWorks
    · cases hWorks

/-- A loop that rests may get in line. -/
theorem enqueue (h : Orderly s) {t u : Task κ ν σ} (ht : t ∈ s.tasks) (hId : u.id = t.id)
    (hIdle : t.phase.isIdle = true) (hPhase : u.phase = .waiting) :
    Orderly { s.putTask u with line := s.line ++ [t.id] } := by
  -- an idle task stands nowhere in the line, so it may be put at the end
  have hOut : t.id ∉ s.line := by rw [h.mem_line_iff ht, hIdle]; decide
  refine ⟨nodup_putTask h.ids_nodup u, h.id_lt_putTask ht hId, ?_, ?_, ?_⟩
  · show (s.line ++ [t.id]).Nodup
    rw [← List.concat_eq_append]
    exact List.Nodup.concat hOut h.line_nodup
  · intro id
    simp only [List.mem_append, List.mem_singleton]
    constructor
    · rintro (hMem | rfl)
      · obtain ⟨v, hv, rfl, hBusy⟩ := (h.mem_line id).1 hMem
        have hne : v.id ≠ u.id := fun hEq => hOut (hId ▸ hEq ▸ hMem)
        exact ⟨v, mem_putTask_of_ne hv hne, rfl, hBusy⟩
      · exact ⟨u, mem_putTask_self ht hId, hId, by rw [hPhase]; rfl⟩
    · rintro ⟨v, hv, rfl, hBusy⟩
      rcases mem_tasks_putTask hv with rfl | ⟨hv, -⟩
      · exact .inr hId
      · exact .inl ((h.mem_line_iff hv).2 hBusy)
  · intro v hv hWorks
    rcases mem_tasks_putTask hv with rfl | ⟨hv, -⟩
    · rw [hPhase] at hWorks
      cases hWorks
    · simp only [List.head?_append, h.first v hv hWorks]
      rfl

theorem callClose (h : Orderly s) (timeout : Nat) : Orderly (s.callClose timeout) := by
  have hFresh : s.fresh ≤ (s.callClose timeout).fresh := by
    rw [fresh_callClose]
    exact Nat.le_succ _
  rcases tasks_callClose s timeout with hTasks | ⟨id, hTasks⟩
  · exact h.of_eq hTasks (line_callClose s timeout) hFresh
  · exact (h.stop id).of_eq hTasks (line_callClose s timeout) hFresh

/-- Whoever works holds the lock until the refresh has ended, and gives it up then. -/
theorem finish (h : Orderly s) {t : Task κ ν σ} (ht : t ∈ s.tasks)
    (hFirst : s.line.head? = some t.id) (result : Except String Unit) :
    Orderly (s.finish t result) := by
  cases hLoop : t.role.isLoop with
  | true =>
    rw [finish_loop hLoop]
    exact h.putFirst ht rfl hFirst rfl
  | false =>
    obtain ⟨outcome, hEnd | hEnd⟩ := finish_call (s := s) hLoop result
    · rw [hEnd]
      exact (h.dropFirst hFirst).of_eq rfl rfl (Nat.le_refl _)
    · rw [hEnd]
      exact (h.dropFirst hFirst).launch.of_eq rfl rfl (Nat.le_refl _)

variable [DecidableEq κ]

/-- Every event keeps the order. -/
theorem step {source : Source κ ν σ} {e : Event κ} (h : Orderly s)
    (hStep : s.step source e = some s') : Orderly s' := by
  -- one case for each kind of event; the first in line is who works
  cases e with
  | start =>
    obtain rfl := Option.some.inj hStep
    unfold callStart
    split
    · exact h.of_eq rfl rfl (Nat.le_succ _)
    · exact h.addWaiting .start
  | update key =>
    obtain rfl := Option.some.inj hStep
    exact h.addWaiting (.update key)
  | close timeout =>
    obtain rfl := Option.some.inj hStep
    exact h.callClose timeout
  | get key =>
    obtain rfl := Option.some.inj hStep
    exact h.of_eq rfl rfl (Nat.le_refl _)
  | enter id =>
    obtain ⟨t, ht, rfl, -, hFirst, rfl⟩ := step_enter hStep
    refine h.putFirst ht rfl hFirst ?_
    simp only
    split <;> rfl
  | work id =>
    obtain ⟨t, ht, rfl, began, ready, rest, hPhase, -, rfl⟩ := step_work hStep
    have hFirst := h.first t ht (by rw [hPhase]; rfl)
    rcases work_cases s t began rest with ⟨result, -, hWork⟩ | ⟨place, ready, next, -, -, hWork⟩
    · rw [hWork]
      exact h.finish ht hFirst result
    · have hPlaced : Orderly { s with place } := h.of_eq rfl rfl (Nat.le_refl _)
      rw [hWork]
      exact hPlaced.putFirst ht rfl hFirst rfl
  | cutOff id =>
    obtain ⟨t, ht, rfl, hOverdue, rfl⟩ := step_cutOff hStep
    obtain ⟨-, began, hBegan, -⟩ := isOverdue_eq_true_iff.1 hOverdue
    exact h.putFirst ht rfl (h.first t ht (isWorking_of_began? hBegan)) rfl
  | sweep id =>
    obtain ⟨t, ht, rfl, hPhase, rfl⟩ := step_sweep hStep
    have hFirst := h.first t ht (by rw [hPhase]; rfl)
    have hSwept : Orderly { s with place := { s.place with
        store := (s.place.store.cleanUp s.place.clock.wall).1 } } :=
      h.of_eq rfl rfl (Nat.le_refl _)
    exact hSwept.restFirst ht hFirst
  | tick id =>
    obtain ⟨t, ht, rfl, hPhase, nextTick, -, -, rfl⟩ := step_tick hStep
    exact h.enqueue ht rfl (by rw [hPhase]; rfl) rfl
  | leave id =>
    obtain ⟨t, ht, rfl, hPhase, -, rfl⟩ := step_leave hStep
    exact h.dropIdle ht (by rw [hPhase]; rfl)
  | closed id =>
    obtain ⟨c, -, -, -, rfl⟩ := step_closed hStep
    exact h.of_eq rfl rfl (Nat.le_refl _)
  | giveUp id =>
    obtain ⟨c, -, -, -, rfl⟩ := step_giveUp hStep
    exact h.of_eq rfl rfl (Nat.le_refl _)
  | pass duration wall =>
    obtain ⟨-, rfl⟩ := step_pass hStep
    exact h.of_eq rfl rfl (Nat.le_refl _)

end Orderly

/-! ## How long a refresh lasts -/

theorem began?_congr {t u : Task κ ν σ} (h : t.phase = u.phase) : t.began? = u.began? := by
  unfold Task.began?
  rw [h]

theorem began?_eq_some_iff {t : Task κ ν σ} {b : Nat} :
    t.began? = some b ↔ ∃ ready rest, t.phase = .refreshing b ready rest := by
  unfold Task.began?
  cases t.phase <;> simp

/-- A task that is put outside a refresh is not the one that is in it. -/
theorem mem_of_began?_putTask {u v : Task κ ν σ} (hv : v ∈ (s.putTask u).tasks)
    (hNone : u.began? = none) {b : Nat} (hb : v.began? = some b) : v ∈ s.tasks ∧ v.id ≠ u.id := by
  rcases mem_tasks_putTask hv with rfl | hv
  · rw [hNone] at hb
    cases hb
  · exact hv

/-- After the end of a refresh, only other tasks are in one. -/
theorem mem_of_began?_finish {t v : Task κ ν σ} {result : Except String Unit} {b : Nat}
    (hv : v ∈ (s.finish t result).tasks) (hb : v.began? = some b) :
    v ∈ s.tasks ∧ v.id ≠ t.id := by
  cases hLoop : t.role.isLoop with
  | true =>
    rw [finish_loop hLoop] at hv
    -- it is about to sweep
    have hOther := mem_of_began?_putTask hv rfl hb
    exact hOther
  | false =>
    obtain ⟨outcome, hEnd | hEnd⟩ := finish_call (s := s) hLoop result
    · rw [hEnd] at hv
      exact mem_tasks_dropTask.1 hv
    · rw [hEnd] at hv
      rcases List.mem_append.1 hv with hv | hv
      · exact mem_tasks_dropTask.1 hv
      · obtain rfl := List.mem_singleton.1 hv
        cases hb

variable [DecidableEq κ] {source : Source κ ν σ}

/-- How a task came to be in what remains of a refresh after an event: it was in it before, it has
just entered a refresh of the source, or it has taken an action of its refresh. -/
inductive ToRefresh (source : Source κ ν σ) (s : State κ ν σ) (e : Event κ) (v : Task κ ν σ)
    (began : Nat) (rest : Refresh κ ν σ (Except String Unit)) : Prop
  | kept (noEnter : e ≠ .enter v.id) (noWork : e ≠ .work v.id) (u : Task κ ν σ) (mem : u ∈ s.tasks)
    (id : u.id = v.id) (loop : u.role.isLoop = v.role.isLoop) (phase : u.phase = v.phase)
  | entered (enter : e = .enter v.id) (now : began = s.place.clock.now)
    (whole : rest = source.full ∨ ∃ key, rest = source.single key)
  | worked (work : e = .work v.id) (u : Task κ ν σ) (mem : u ∈ s.tasks) (id : u.id = v.id)
    (loop : u.role.isLoop = v.role.isLoop) (ready : Nat)
    (before : Refresh κ ν σ (Except String Unit)) (phase : u.phase = .refreshing began ready before)
    (action : rest = (before.step s.place).1)

/-- How whoever is in a refresh after an event came to be there. -/
theorem refreshing_of_step {e : Event κ} (hStep : s.step source e = some s') {v : Task κ ν σ}
    (hv : v ∈ s'.tasks) {began ready : Nat} {rest : Refresh κ ν σ (Except String Unit)}
    (hPhase : v.phase = .refreshing began ready rest) : ToRefresh source s e v began rest := by
  have hBegan : v.began? = some began := by simp only [Task.began?, hPhase]
  -- most events leave the tasks that are in a refresh as they are
  have hKept : e ≠ .enter v.id → e ≠ .work v.id → v ∈ s.tasks → ToRefresh source s e v began rest :=
    fun noEnter noWork hMem => .kept noEnter noWork v hMem rfl rfl rfl
  have hAdded : e ≠ .enter v.id → e ≠ .work v.id → ∀ u, u.began? = none → v ∈ s.tasks ++ [u] →
      ToRefresh source s e v began rest := by
    intro noEnter noWork u hNone hMem
    rcases List.mem_append.1 hMem with hMem | hMem
    · exact hKept noEnter noWork hMem
    · obtain rfl := List.mem_singleton.1 hMem
      cases hNone.symm.trans hBegan
  cases e with
  | start =>
    obtain rfl := Option.some.inj hStep
    unfold callStart at hv
    split at hv
    · exact hKept nofun nofun hv
    · exact hAdded nofun nofun _ rfl hv
  | update key =>
    obtain rfl := Option.some.inj hStep
    exact hAdded nofun nofun _ rfl hv
  | close timeout =>
    obtain rfl := Option.some.inj hStep
    rcases tasks_callClose s timeout with hTasks | ⟨id, hTasks⟩
    · exact hKept nofun nofun (hTasks ▸ hv)
    · obtain ⟨t, ht, hId, hSame, hLoop⟩ := mem_tasks_stop (hTasks ▸ hv)
      exact .kept nofun nofun t ht hId.symm hLoop.symm hSame.symm
  | get key =>
    obtain rfl := Option.some.inj hStep
    exact hKept nofun nofun hv
  | enter id =>
    obtain ⟨t, ht, rfl, -, -, rfl⟩ := step_enter hStep
    rcases mem_tasks_putTask hv with rfl | ⟨hMem, hne⟩
    · dsimp only at hPhase
      split at hPhase
      · obtain ⟨rfl, -, rfl⟩ := Phase.refreshing.inj hPhase
        exact .entered rfl rfl (.inl rfl)
      · obtain ⟨rfl, -, rfl⟩ := Phase.refreshing.inj hPhase
        exact .entered rfl rfl (.inr ⟨_, rfl⟩)
      · obtain ⟨rfl, -, rfl⟩ := Phase.refreshing.inj hPhase
        exact .entered rfl rfl (.inl rfl)
      · cases hPhase
    · exact hKept (fun hEq => hne (Event.enter.inj hEq).symm) nofun hMem
  | work id =>
    obtain ⟨t, ht, rfl, b, r, before, hT, -, rfl⟩ := step_work hStep
    have hOther : v ∈ s.tasks ∧ v.id ≠ t.id →
        ToRefresh source s (.work t.id) v began rest := fun ⟨hMem, hne⟩ =>
      hKept nofun (fun hEq => hne (Event.work.inj hEq).symm) hMem
    rcases work_cases s t b before with ⟨result, -, hWork⟩ | ⟨place, r', next, hNext, -, hWork⟩
    · rw [hWork] at hv
      exact hOther (mem_of_began?_finish hv hBegan)
    · rw [hWork] at hv
      rcases mem_tasks_putTask hv with rfl | hMem
      · obtain ⟨rfl, -, rfl⟩ := Phase.refreshing.inj hPhase
        exact .worked rfl t ht rfl rfl r before hT (by rw [hNext])
      · exact hOther hMem
  | cutOff id =>
    obtain ⟨t, ht, rfl, -, rfl⟩ := step_cutOff hStep
    exact hKept nofun nofun (mem_of_began?_putTask hv rfl hBegan).1
  | sweep id =>
    obtain ⟨t, ht, rfl, -, rfl⟩ := step_sweep hStep
    exact hKept nofun nofun (mem_of_began?_putTask hv rfl hBegan).1
  | tick id =>
    obtain ⟨t, ht, rfl, -, nextTick, -, -, rfl⟩ := step_tick hStep
    exact hKept nofun nofun (mem_of_began?_putTask hv rfl hBegan).1
  | leave id =>
    obtain ⟨t, ht, rfl, -, -, rfl⟩ := step_leave hStep
    exact hKept nofun nofun (mem_tasks_dropTask.1 hv).1
  | closed id =>
    obtain ⟨c, -, -, -, rfl⟩ := step_closed hStep
    exact hKept nofun nofun hv
  | giveUp id =>
    obtain ⟨c, -, -, -, rfl⟩ := step_giveUp hStep
    exact hKept nofun nofun hv
  | pass duration wall =>
    obtain ⟨-, rfl⟩ := step_pass hStep
    exact hKept nofun nofun hv

/-- Who is in a refresh after an event either was in it before, or has just entered. -/
theorem began_of_step {e : Event κ} (hStep : s.step source e = some s') {v : Task κ ν σ}
    (hv : v ∈ s'.tasks) {b : Nat} (hb : v.began? = some b) :
    (e ≠ .enter v.id ∧ ∃ u ∈ s.tasks, u.id = v.id ∧ u.role.isLoop = v.role.isLoop ∧
      u.began? = some b) ∨ e = .enter v.id ∧ b = s.place.clock.now := by
  obtain ⟨ready, rest, hPhase⟩ := began?_eq_some_iff.1 hb
  cases refreshing_of_step hStep hv hPhase with
  | kept noEnter noWork u hu hId hLoop hSame =>
    exact .inl ⟨noEnter, u, hu, hId, hLoop, began?_congr hSame ▸ hb⟩
  | entered enter now => exact .inr ⟨enter, now⟩
  | worked work u hu hId hLoop ready before hU =>
    exact .inl ⟨work ▸ nofun, u, hu, hId, hLoop, began?_eq_some_iff.2 ⟨ready, before, hU⟩⟩

/-- Whoever is in a refresh entered it by the latest such event. -/
theorem entered_of_run (none_began : ∀ t ∈ s.tasks, t.began? = none) {events : List (Event κ)}
    (hRun : s.run source events = some s') {v : Task κ ν σ} (hv : v ∈ s'.tasks) {b : Nat}
    (hb : v.began? = some b) :
    ∃ before after m, events = before ++ .enter v.id :: after ∧ .enter v.id ∉ after ∧
      s.run source before = some m ∧ m.place.clock.now = b := by
  -- by induction on the events from the last one on
  induction events using List.reverseRecOn generalizing s' v with
  | nil =>
    obtain rfl := Option.some.inj hRun
    rw [none_began v hv] at hb
    cases hb
  | append_singleton events e ih =>
    rw [run_append, Option.bind_eq_some_iff] at hRun
    obtain ⟨m, hM, hLast⟩ := hRun
    have hStep : m.step source e = some s' := by simpa [run] using hLast
    rcases began_of_step hStep hv hb with ⟨hNot, u, hu, hId, -, hBegan⟩ | ⟨rfl, rfl⟩
    · obtain ⟨before, after, n, hEvents, hAfter, hN, hNow⟩ := ih hM hu hBegan
      rw [hId] at hEvents hAfter
      refine ⟨before, after ++ [e], n, by simp [hEvents], ?_, hN, hNow⟩
      simp only [List.mem_append, List.mem_singleton, not_or]
      exact ⟨hAfter, hNot.symm⟩
    · exact ⟨events, [], m, rfl, List.not_mem_nil, hM, rfl⟩

/-- Events do not change the options, and only one kind of event moves the clock. -/
theorem frame_of_step {e : Event κ} (hStep : s.step source e = some s') :
    s'.options = s.options ∧
      (s'.place.clock = s.place.clock ∨ ∃ duration wall, e = .pass duration wall) := by
  cases e with
  | start =>
    obtain rfl := Option.some.inj hStep
    unfold callStart
    split <;> exact ⟨rfl, .inl rfl⟩
  | close timeout =>
    obtain rfl := Option.some.inj hStep
    exact ⟨options_callClose s timeout, .inl (by rw [place_callClose])⟩
  | update key | get key =>
    obtain rfl := Option.some.inj hStep
    exact ⟨rfl, .inl rfl⟩
  | enter id =>
    obtain ⟨t, -, -, -, -, rfl⟩ := step_enter hStep
    exact ⟨rfl, .inl rfl⟩
  | work id =>
    obtain ⟨t, -, -, began, ready, rest, -, -, rfl⟩ := step_work hStep
    -- an act of a refresh may change surroundings and store, and never the clock
    rcases work_cases s t began rest with ⟨result, -, hWork⟩ | ⟨place, ready, next, -, hClock, hWork⟩
    · rw [hWork]
      cases hLoop : t.role.isLoop with
      | true =>
        rw [finish_loop hLoop]
        exact ⟨rfl, .inl rfl⟩
      | false =>
        obtain ⟨outcome, hEnd | hEnd⟩ := finish_call (s := s) hLoop result <;> rw [hEnd] <;>
          exact ⟨rfl, .inl rfl⟩
    · rw [hWork]
      exact ⟨rfl, .inl hClock⟩
  | cutOff id =>
    obtain ⟨t, -, -, -, rfl⟩ := step_cutOff hStep
    exact ⟨rfl, .inl rfl⟩
  | sweep id =>
    obtain ⟨t, -, -, -, rfl⟩ := step_sweep hStep
    exact ⟨rfl, .inl rfl⟩
  | tick id =>
    obtain ⟨t, -, -, -, nextTick, -, -, rfl⟩ := step_tick hStep
    exact ⟨rfl, .inl rfl⟩
  | leave id =>
    obtain ⟨t, -, -, -, -, rfl⟩ := step_leave hStep
    exact ⟨rfl, .inl rfl⟩
  | closed id =>
    obtain ⟨c, -, -, -, rfl⟩ := step_closed hStep
    exact ⟨rfl, .inl rfl⟩
  | giveUp id =>
    obtain ⟨c, -, -, -, rfl⟩ := step_giveUp hStep
    exact ⟨rfl, .inl rfl⟩
  | pass duration wall =>
    obtain ⟨-, rfl⟩ := step_pass hStep
    exact ⟨rfl, .inr ⟨duration, wall, rfl⟩⟩

omit [DecidableEq κ] in
/-- No loop is in a refresh that has lasted longer than the lifetime. -/
def Timely (s : State κ ν σ) : Prop :=
  ∀ t ∈ s.tasks, t.role.isLoop = true → ∀ b, t.began? = some b →
    s.place.clock.now ≤ b + s.options.ttl

theorem Timely.step {e : Event κ} (h : Timely s) (hStep : s.step source e = some s') :
    Timely s' := by
  obtain ⟨hOptions, hClock | ⟨duration, wall, rfl⟩⟩ := frame_of_step hStep
  · -- no time passes: a refresh that goes on is in time, and one that has just begun is
    intro v hv hLoop b hb
    rw [hOptions, hClock]
    rcases began_of_step hStep hv hb with ⟨-, u, hu, -, hSame, hBegan⟩ | ⟨-, rfl⟩
    · exact h u hu (hSame.trans hLoop) b hBegan
    · exact Nat.le_add_right _ _
  · -- time passes only as far as every loop stays in time
    obtain ⟨hPast, rfl⟩ := step_pass hStep
    intro v hv hLoop b hb
    exact isPast_eq_false_iff.1 (hPast v hv) hLoop b hb

/-! ## All states that events lead to -/

section Made

variable {options : CacheOptions} {surroundings : σ} {clock : Clock}

omit [DecidableEq κ] in
theorem tasks_of_make (h : make options surroundings clock = .ok s) :
    s.tasks = [] ∧ s.line = [] ∧ s.options = options := by
  unfold make at h
  split at h
  · cases h
  · obtain rfl := Except.ok.inj h
    exact ⟨rfl, rfl, rfl⟩

omit [DecidableEq κ] in
theorem Orderly.of_make (h : make options surroundings clock = .ok s) : Orderly s := by
  obtain ⟨hTasks, hLine, -⟩ := tasks_of_make h
  constructor <;> simp [hTasks, hLine]

omit [DecidableEq κ] in
/-- At most one task is in a refresh. -/
theorem Orderly.length_began_le (h : Orderly s) :
    (s.tasks.filter (·.began?.isSome)).length ≤ 1 := by
  have hNodup : (s.tasks.filter (·.began?.isSome)).Nodup :=
    (List.Nodup.of_map _ h.ids_nodup).filter _
  -- two refreshes under way would be two tasks that work, and only the first of the line works
  by_contra hMany
  obtain ⟨t, u, rest, hList⟩ : ∃ t u rest, s.tasks.filter (·.began?.isSome) = t :: u :: rest := by
    match hCase : s.tasks.filter (·.began?.isSome) with
    | [] | [t] => simp [hCase] at hMany
    | t :: u :: rest => exact ⟨t, u, rest, hCase⟩
  have hWorks : ∀ v ∈ t :: u :: rest, v ∈ s.tasks ∧ v.phase.isWorking = true := by
    intro v hv
    obtain ⟨hMem, hSome⟩ := List.mem_filter.1 (hList ▸ hv)
    obtain ⟨b, hb⟩ := Option.isSome_iff_exists.1 hSome
    exact ⟨hMem, isWorking_of_began? hb⟩
  have hT := hWorks t (by simp)
  have hU := hWorks u (by simp)
  rw [hList, List.nodup_cons] at hNodup
  exact hNodup.1 (h.eq_of_isWorking hT.1 hU.1 hT.2 hU.2 ▸ List.mem_cons_self)

omit [DecidableEq κ] in
/-- While a task is about to sweep, none is in a refresh. -/
theorem Orderly.began?_eq_none (h : Orderly s) {t u : Task κ ν σ} (ht : t ∈ s.tasks)
    (hu : u ∈ s.tasks) (hPhase : t.phase = .sweeping) : u.began? = none := by
  cases hBegan : u.began? with
  | none => rfl
  | some b =>
    have hSame : t = u := h.eq_of_isWorking ht hu (by rw [hPhase]; rfl) (isWorking_of_began? hBegan)
    rw [← hSame, Task.began?, hPhase] at hBegan
    cases hBegan

/-- Whatever calls to start, to update and to close come in, and however the tasks interleave: at
most one refresh is in progress; a sweep happens while none is; and a refresh of a loop, which is
in progress since its latest entry, has not lasted longer than the lifetime. When it has lasted so
long it can be cut off, so that the clock is never held up. -/
theorem one_refresh_at_a_time {first : State κ ν σ} {events : List (Event κ)}
    (hMake : make options surroundings clock = .ok first)
    (hRun : first.run source events = some s) :
    (s.tasks.filter (·.began?.isSome)).length ≤ 1 ∧
      (∀ id next, s.step source (.sweep id) = some next →
        (∀ t ∈ s.tasks, t.began? = none) ∧ ∀ t ∈ next.tasks, t.began? = none) ∧
      ∀ t ∈ s.tasks, t.role.isLoop = true → ∀ b, t.began? = some b →
        (∃ before after m, events = before ++ .enter t.id :: after ∧ .enter t.id ∉ after ∧
          first.run source before = some m ∧ m.place.clock.now = b) ∧
        s.place.clock.now ≤ b + options.ttl ∧
        (s.place.clock.now = b + options.ttl →
          s.step source (.cutOff t.id) = some (s.enterPhase t .sweeping)) := by
  obtain ⟨hTasks, -, hOptions⟩ := tasks_of_make hMake
  have hOrderly : Orderly s := run_keeps (fun _ _ _ h hStep => h.step hStep) (.of_make hMake) hRun
  have hTimely : Timely s :=
    run_keeps (fun _ _ _ h hStep => h.step hStep) (by simp [Timely, hTasks]) hRun
  have hSame : s.options = options :=
    run_keeps (P := fun s => s.options = options)
      (fun _ _ _ h hStep => (frame_of_step hStep).1.trans h) hOptions hRun
  refine ⟨hOrderly.length_began_le, fun id next hSweep => ?_, fun t ht hLoop b hb => ?_⟩
  · obtain ⟨t, ht, -, hPhase, -⟩ := step_sweep hSweep
    have hNone : ∀ u ∈ s.tasks, u.began? = none := fun u hu =>
      hOrderly.began?_eq_none ht hu hPhase
    refine ⟨hNone, fun v hv => ?_⟩
    cases hBegan : v.began? with
    | none => rfl
    | some b =>
      -- a sweep lets nobody enter
      rcases began_of_step hSweep hv hBegan with ⟨-, u, hu, -, -, hWas⟩ | ⟨hEnter, -⟩
      · rw [hNone u hu] at hWas
        cases hWas
      · cases hEnter
  · have hLimit := hTimely t ht hLoop b hb
    rw [hSame] at hLimit
    refine ⟨entered_of_run (by simp [hTasks]) hRun ht hb, hLimit, fun hNow => ?_⟩
    have hOverdue : t.isOverdue s.options.ttl s.place.clock.now = true :=
      isOverdue_eq_true_iff.2 ⟨hLoop, b, hb, by rw [hSame]; exact Nat.le_of_eq hNow.symm⟩
    simp only [State.step, task?_of_mem hOrderly.ids_nodup ht, Option.bind_some, hOverdue, if_true]

/-- The second refresh of a slow source, at the end of its time, with an update in line. -/
theorem one_refresh_at_a_time_slow_source :
    let options : CacheOptions := ⟨"slow", .background, 10, 0⟩
    let source : Source String Nat Unit :=
      ⟨.wait 20 (.done (.ok ())), fun key => .set key 1 0 (.done (.ok ()))⟩
    let events : List (Event String) :=
      [.start, .enter 0, .work 0, .pass 20 20, .work 0, .pass 10 10, .tick 1, .update "a",
        .enter 1, .work 1, .pass 10 10]
    ∃ first s t, make options () ⟨0, 0⟩ = .ok first ∧ first.run source events = some s ∧
      t ∈ s.tasks ∧ t.began? = some 30 ∧ s.line = [t.id, 2] ∧
      (s.tasks.filter (·.began?.isSome)).length ≤ 1 ∧ s.place.clock.now ≤ 30 + 10 ∧
      s.step source (.cutOff t.id) = some (s.enterPhase t .sweeping) := by
  intro options source events
  obtain ⟨first, s, t, hMake, hRun, ht, hLoop, hBegan, hLine, hNow⟩ :
      ∃ first s t, make options () ⟨0, 0⟩ = .ok first ∧ first.run source events = some s ∧
        t ∈ s.tasks ∧ t.role.isLoop = true ∧ t.began? = some 30 ∧ s.line = [t.id, 2] ∧
        s.place.clock.now = 40 := by
    simp [options, events, source, make, run, step, task?, begin, enterPhase, putTask, callStart,
      isRunning, addWaiting, work, finish, dropTask, release, launch, answer, tickAfter,
      Task.isPast, tickTolerance, TimeUnit.nanos, Task.began?, Role.isLoop]
  obtain ⟨hOne, -, hLoops⟩ := one_refresh_at_a_time hMake hRun
  obtain ⟨-, hLimit, hCut⟩ := hLoops t ht hLoop 30 hBegan
  exact ⟨first, s, t, hMake, hRun, ht, hBegan, hLine, hOne, hLimit, hCut hNow⟩

end Made

end ItemComposition.Cache.State
