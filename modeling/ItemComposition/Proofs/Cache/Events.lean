import ItemComposition.Cache.State
import ItemComposition.Proofs.DistinctKeys

/-!
# What the events of a cache do

Each event of a cache is told apart by when it can happen and what it leaves behind. Proofs about
runs of a cache go through these statements and not through `State.step` itself.

## Key results

- `run`: a sequence of events, each of which can happen
- `step_enter`, `step_work`, `step_cutOff`, `step_sweep`, `step_tick`, `step_leave`, `step_closed`,
  `step_giveUp`, `step_pass`: the guard of an event and the state after it
- `work_cases`, `finish_call`, `finish_loop`: the next action of a refresh, and what follows its end
-/

namespace ItemComposition.Cache

variable {κ ν σ : Type}

/-- Whether a part is that of a background loop. -/
def Role.isLoop : Role κ → Bool
  | .loop .. => true
  | _ => false

/-- Whether a task rests between two ticks. -/
def Phase.isIdle : Phase κ ν σ → Bool
  | .idle => true
  | _ => false

/-- The time at which the refresh that a task is in began. -/
def Task.began? (t : Task κ ν σ) : Option Nat :=
  match t.phase with
  | .refreshing began _ _ => some began
  | _ => none

/-- Whether a task is in a refresh or about to sweep, which is what the update lock is for. -/
def Phase.isWorking : Phase κ ν σ → Bool
  | .refreshing .. | .sweeping => true
  | _ => false

namespace State

variable {s s' : State κ ν σ} {source : Source κ ν σ} {id : Nat}

theorem mem_of_task? {t : Task κ ν σ} (h : s.task? id = some t) : t ∈ s.tasks ∧ t.id = id :=
  ⟨List.mem_of_find?_eq_some h, by simpa using List.find?_some h⟩

/-- Among tasks with distinct numbers, a task is found by its number. -/
theorem task?_of_mem (nodup : (s.tasks.map Task.id).Nodup) {t : Task κ ν σ} (ht : t ∈ s.tasks) :
    s.task? t.id = some t := find?_key_of_mem nodup ht

variable [DecidableEq κ]

/-- Lets events happen one after the other, if each of them can. -/
def run (source : Source κ ν σ) (s : State κ ν σ) : List (Event κ) → Option (State κ ν σ)
  | [] => some s
  | e :: rest => (s.step source e).bind fun next => run source next rest

theorem run_append (before after : List (Event κ)) :
    s.run source (before ++ after) = (s.run source before).bind fun m => m.run source after := by
  induction before generalizing s with
  | nil => rfl
  | cons e before ih =>
    simp only [List.cons_append, run]
    cases s.step source e with
    | none => rfl
    | some next => exact ih

/-- What every event that can happen keeps, a run keeps. -/
theorem run_keeps {P : State κ ν σ → Prop}
    (keeps : ∀ s e s', P s → s.step source e = some s' → P s') (hs : P s)
    {events : List (Event κ)} (hRun : s.run source events = some s') : P s' := by
  induction events generalizing s with
  | nil =>
    rw [run, Option.some.injEq] at hRun
    exact hRun ▸ hs
  | cons e rest ih =>
    rw [run, Option.bind_eq_some_iff] at hRun
    obtain ⟨next, hNext, hRest⟩ := hRun
    exact ih (keeps _ _ _ hs hNext) hRest

/-! ## Guards and effects -/

theorem step_enter (h : s.step source (.enter id) = some s') :
    ∃ t ∈ s.tasks, t.id = id ∧ t.phase = .waiting ∧ s.line.head? = some id ∧
      s' = s.begin source t := by
  simp only [step, Option.bind_eq_some_iff] at h
  obtain ⟨t, hTask, h⟩ := h
  obtain ⟨hMem, hId⟩ := mem_of_task? hTask
  split at h
  · rename_i hPhase
    split at h
    · rename_i hHead
      exact ⟨t, hMem, hId, hPhase, hHead, (Option.some.inj h).symm⟩
    · cases h
  · cases h

theorem step_work (h : s.step source (.work id) = some s') :
    ∃ t ∈ s.tasks, t.id = id ∧ ∃ began ready rest, t.phase = .refreshing began ready rest ∧
      ready ≤ s.place.clock.now ∧ s' = s.work t began rest := by
  simp only [step, Option.bind_eq_some_iff] at h
  obtain ⟨t, hTask, h⟩ := h
  obtain ⟨hMem, hId⟩ := mem_of_task? hTask
  split at h
  · rename_i began ready rest hPhase
    split at h
    · rename_i hReady
      exact ⟨t, hMem, hId, began, ready, rest, hPhase, hReady, (Option.some.inj h).symm⟩
    · cases h
  · cases h

omit [DecidableEq κ] in
theorem isOverdue_eq_true_iff {t : Task κ ν σ} {ttl now : Nat} :
    t.isOverdue ttl now = true ↔
      t.role.isLoop = true ∧ ∃ began, t.began? = some began ∧ began + ttl ≤ now := by
  unfold Task.isOverdue Task.began?
  cases t.role <;> cases t.phase <;> simp [Role.isLoop]

omit [DecidableEq κ] in
theorem isPast_eq_false_iff {t : Task κ ν σ} {ttl now : Nat} :
    t.isPast ttl now = false ↔
      (t.role.isLoop = true → ∀ began, t.began? = some began → now ≤ began + ttl) := by
  unfold Task.isPast Task.began?
  cases t.role <;> cases t.phase <;> simp [Role.isLoop]

theorem step_cutOff (h : s.step source (.cutOff id) = some s') :
    ∃ t ∈ s.tasks, t.id = id ∧ t.isOverdue s.options.ttl s.place.clock.now = true ∧
      s' = s.enterPhase t .sweeping := by
  simp only [step, Option.bind_eq_some_iff] at h
  obtain ⟨t, hTask, h⟩ := h
  obtain ⟨hMem, hId⟩ := mem_of_task? hTask
  split at h
  · rename_i hOverdue
    exact ⟨t, hMem, hId, hOverdue, (Option.some.inj h).symm⟩
  · cases h

theorem step_sweep (h : s.step source (.sweep id) = some s') :
    ∃ t ∈ s.tasks, t.id = id ∧ t.phase = .sweeping ∧
      s' = ({ s with place := { s.place with store := (s.place.store.cleanUp s.place.clock.wall).1 } }
        |>.enterPhase t .idle).release := by
  simp only [step, Option.bind_eq_some_iff] at h
  obtain ⟨t, hTask, h⟩ := h
  obtain ⟨hMem, hId⟩ := mem_of_task? hTask
  split at h
  · rename_i hPhase
    exact ⟨t, hMem, hId, hPhase, (Option.some.inj h).symm⟩
  · cases h

theorem step_tick (h : s.step source (.tick id) = some s') :
    ∃ t ∈ s.tasks, t.id = id ∧ t.phase = .idle ∧ ∃ nextTick, t.role = .loop nextTick false ∧
      nextTick ≤ s.place.clock.now ∧
      s' = { s.putTask ⟨t.id, .loop (s.tickAfter nextTick) false, .waiting⟩ with
        line := s.line ++ [id] } := by
  simp only [step, Option.bind_eq_some_iff] at h
  obtain ⟨t, hTask, h⟩ := h
  obtain ⟨hMem, hId⟩ := mem_of_task? hTask
  split at h
  · rename_i nextTick hRole hPhase
    split at h
    · rename_i hDue
      exact ⟨t, hMem, hId, hPhase, nextTick, hRole, hDue, (Option.some.inj h).symm⟩
    · cases h
  · cases h

theorem step_leave (h : s.step source (.leave id) = some s') :
    ∃ t ∈ s.tasks, t.id = id ∧ t.phase = .idle ∧ (∃ nextTick, t.role = .loop nextTick true) ∧
      s' = s.dropTask id := by
  simp only [step, Option.bind_eq_some_iff] at h
  obtain ⟨t, hTask, h⟩ := h
  obtain ⟨hMem, hId⟩ := mem_of_task? hTask
  split at h
  · rename_i nextTick hRole hPhase
    exact ⟨t, hMem, hId, hPhase, ⟨nextTick, hRole⟩, (Option.some.inj h).symm⟩
  · cases h

theorem step_closed (h : s.step source (.closed id) = some s') :
    ∃ c ∈ s.closings, c.id = id ∧ s.isAlive c.loop = false ∧
      s' = { s.answer id (.ok ()) with closings := s.closings.filter (·.id ≠ id) } := by
  simp only [step, Option.bind_eq_some_iff] at h
  obtain ⟨c, hFind, h⟩ := h
  split at h
  · cases h
  · rename_i hAlive
    refine ⟨c, List.mem_of_find?_eq_some hFind, by simpa using List.find?_some hFind, ?_, ?_⟩
    · simpa using hAlive
    · exact (Option.some.inj h).symm

theorem step_giveUp (h : s.step source (.giveUp id) = some s') :
    ∃ c ∈ s.closings, c.id = id ∧ (s.isAlive c.loop = true ∧ c.limit ≤ s.place.clock.now) ∧
      s' = { s.answer id (.error (.shutdownTimeout s.options.name c.timeout)) with
        closings := s.closings.filter (·.id ≠ id) } := by
  simp only [step, Option.bind_eq_some_iff] at h
  obtain ⟨c, hFind, h⟩ := h
  split at h
  · rename_i hLate
    rw [Bool.and_eq_true, decide_eq_true_eq] at hLate
    exact ⟨c, List.mem_of_find?_eq_some hFind, by simpa using List.find?_some hFind, hLate,
      (Option.some.inj h).symm⟩
  · cases h

theorem step_pass {duration wall : Nat} (h : s.step source (.pass duration wall) = some s') :
    (∀ t ∈ s.tasks, t.isPast s.options.ttl (s.place.clock.now + duration) = false) ∧
      s' = { s with place := { s.place with
        clock := ⟨s.place.clock.now + duration, s.place.clock.wall + wall⟩ } } := by
  simp only [step] at h
  split at h
  · cases h
  · rename_i hPast
    refine ⟨fun t ht => ?_, (Option.some.inj h).symm⟩
    rw [List.any_eq_true] at hPast
    exact Bool.eq_false_iff.2 fun hIs => hPast ⟨t, ht, hIs⟩

/-! ## Calls to close -/

section CallClose

variable (s : State κ ν σ) (timeout : Nat)

omit [DecidableEq κ]

/-- A call to close tells at most one loop to stop, and changes no other task. -/
theorem tasks_callClose : (s.callClose timeout).tasks = s.tasks ∨
    ∃ id, (s.callClose timeout).tasks = (s.stop id).tasks := by
  unfold callClose
  cases s.target with
  | none => cases s.worker <;> exact .inl rfl
  | some id => cases s.worker <;> exact .inr ⟨id, rfl⟩

theorem line_callClose : (s.callClose timeout).line = s.line := by
  unfold callClose
  cases s.target <;> cases s.worker <;> rfl

theorem fresh_callClose : (s.callClose timeout).fresh = s.fresh + 1 := by
  unfold callClose
  cases s.worker <;> rfl

theorem place_callClose : (s.callClose timeout).place = s.place := by
  unfold callClose
  cases s.target <;> cases s.worker <;> rfl

theorem options_callClose : (s.callClose timeout).options = s.options := by
  unfold callClose
  cases s.target <;> cases s.worker <;> rfl

end CallClose

/-! ## The actions of a refresh -/

/-- The next action of a task either follows the end of its refresh, or leaves it in what remains of
the refresh, at the same moment. -/
theorem work_cases (s : State κ ν σ) (t : Task κ ν σ) (began : Nat)
    (rest : Refresh κ ν σ (Except String Unit)) :
    (∃ result, rest = .done result ∧ s.work t began rest = s.finish t result) ∨
      ∃ place ready next, rest.step s.place = (next, place) ∧ place.clock = s.place.clock ∧
        s.work t began rest =
          { s with place }.enterPhase t (.refreshing began ready next) := by
  cases rest with
  | done result => exact .inl ⟨result, rfl, rfl⟩
  | wait duration next => exact .inr ⟨s.place, s.place.clock.now + duration, next, rfl, rfl, rfl⟩
  | clock | lastUpdated | get | set | look | change =>
    -- every other action leaves the clock as it is
    refine .inr ⟨_, s.place.clock.now, _, rfl, ?_, rfl⟩
    rfl

omit [DecidableEq κ] in
/-- A call whose refresh has ended is over and gives the lock up; only a start that succeeded
launches a loop. -/
theorem finish_call {t : Task κ ν σ} (hRole : t.role.isLoop = false)
    (result : Except String Unit) :
    ∃ outcome, s.finish t result = (s.dropTask t.id).release.answer t.id outcome ∨
      s.finish t result = (s.dropTask t.id).release.launch.answer t.id outcome := by
  unfold finish
  cases hCase : t.role with
  | start =>
    cases result with
    | ok u => exact ⟨.ok (), .inr rfl⟩
    | error reason => exact ⟨_, .inl rfl⟩
  | update key => exact ⟨.ok (), .inl rfl⟩
  | loop nextTick stopped => simp [hCase, Role.isLoop] at hRole

omit [DecidableEq κ] in
/-- A loop goes on to sweep, however its refresh ended. -/
theorem finish_loop {t : Task κ ν σ} (hRole : t.role.isLoop = true)
    (result : Except String Unit) : s.finish t result = s.enterPhase t .sweeping := by
  unfold finish
  cases hCase : t.role with
  | start => simp [hCase, Role.isLoop] at hRole
  | update key => simp [hCase, Role.isLoop] at hRole
  | loop nextTick stopped => rfl

end State

end ItemComposition.Cache
