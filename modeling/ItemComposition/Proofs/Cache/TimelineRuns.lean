import ItemComposition.Cache.Timeline
import ItemComposition.Proofs.Cache.UpdateLock

/-!
# Timelines are runs

A timeline picks one of the many ways in which events can follow each other. Here every call on a
timeline is taken apart into events, so that what holds of all runs of a cache holds of what the
timeline does: it never lets two refreshes overlap, for one.

The actions that a task takes up to its next pause are events one by one; all other turns are single
events. A bound on the number of turns only ends a run earlier.

## Key results

- `reaches_proceed`: the actions of a task up to its next pause
- `reaches_turn`, `reaches_ownTurn`: what a task or a call to close does at a moment
- `Orderly.reaches_await`, `Orderly.reaches_sleep`: letting time pass
- `OnTimeline.reaches`: calls one after the other
- `OnTimeline.length_began_le`: no two refreshes overlap between them
-/

namespace ItemComposition.Cache.State

variable {κ ν σ : Type} {s m s' : State κ ν σ} {source : Source κ ν σ} {t : Task κ ν σ} {id : Nat}

/-! ## Putting a task into one phase after another -/

/-- Only the last state of a task that is put counts. -/
theorem putTask_putTask {u v : Task κ ν σ} (h : u.id = v.id) :
    (s.putTask u).putTask v = s.putTask v := by
  have hTasks : (s.tasks.map fun w => if w.id = u.id then u else w).map
      (fun w => if w.id = v.id then v else w) = s.tasks.map fun w => if w.id = v.id then v else w := by
    rw [List.map_map]
    apply List.map_congr_left
    intro w _
    show (if (if w.id = u.id then u else w).id = v.id then v else
      (if w.id = u.id then u else w)) = if w.id = v.id then v else w
    by_cases hw : w.id = u.id
    · simp only [if_pos hw, if_pos h, if_pos (hw.trans h)]
    · simp only [if_neg hw]
  simp only [putTask, hTasks]

theorem dropTask_putTask (u : Task κ ν σ) : (s.putTask u).dropTask u.id = s.dropTask u.id := by
  have hTasks : (s.tasks.map fun w => if w.id = u.id then u else w).filter (·.id ≠ u.id) =
      s.tasks.filter (·.id ≠ u.id) := by
    induction s.tasks with
    | nil => rfl
    | cons w rest ih =>
      by_cases hw : w.id = u.id
      · simp only [List.map_cons, if_pos hw]
        rw [List.filter_cons_of_neg (by simp), List.filter_cons_of_neg (by simp [hw]), ih]
      · simp only [List.map_cons, if_neg hw]
        rw [List.filter_cons_of_pos (by simp [hw]), List.filter_cons_of_pos (by simp [hw]), ih]
  simp only [putTask, dropTask, hTasks]

/-- A task that is put is found under its number. -/
theorem task?_enterPhase (h : s.task? t.id = some t) (phase : Phase κ ν σ) :
    (s.enterPhase t phase).task? t.id = some { t with phase } := by
  show (s.tasks.map fun w => if w.id = t.id then { t with phase } else w).find? (·.id = t.id) = _
  have hSame : ((fun w : Task κ ν σ => decide (w.id = t.id)) ∘
      fun w => if w.id = t.id then { t with phase } else w) = fun w => decide (w.id = t.id) := by
    funext w
    by_cases hw : w.id = t.id <;> simp [hw]
  have hFound : s.tasks.find? (·.id = t.id) = some t := h
  rw [List.find?_map, hSame, hFound, Option.map_some, if_pos rfl]

theorem enterPhase_enterPhase (first second : Phase κ ν σ) :
    (s.enterPhase t first).enterPhase { t with phase := first } second = s.enterPhase t second := by
  show (s.putTask { t with phase := first }).putTask { t with phase := second } = _
  exact putTask_putTask rfl

theorem finish_enterPhase (phase : Phase κ ν σ) (result : Except String Unit) :
    (s.enterPhase t phase).finish { t with phase } result = s.finish t result := by
  have hDrop : (s.enterPhase t phase).dropTask t.id = s.dropTask t.id :=
    dropTask_putTask { t with phase }
  have hSweep := enterPhase_enterPhase (s := s) (t := t) phase .sweeping
  unfold finish
  cases hRole : t.role with
  | start =>
    simp only [hDrop]
    rfl
  | update key => simp only [hDrop]
  | loop nextTick stopped => simpa only [hRole] using hSweep

variable [DecidableEq κ]

theorem work_enterPhase (phase : Phase κ ν σ) (began : Nat)
    (rest : Refresh κ ν σ (Except String Unit)) :
    (s.enterPhase t phase).work { t with phase } began rest = s.work t began rest := by
  cases rest with
  | done result => exact finish_enterPhase phase result
  | wait duration next => exact enterPhase_enterPhase phase _
  | clock | lastUpdated | get | set | look | change =>
    exact enterPhase_enterPhase (s := { s with place := _ }) phase _

/-! ## Events that lead from a state to another -/

/-- Some events lead from a state to another. -/
def Reaches (source : Source κ ν σ) (s s' : State κ ν σ) : Prop :=
  ∃ events, s.run source events = some s'

theorem Reaches.refl (s : State κ ν σ) : s.Reaches source s := ⟨[], rfl⟩

theorem Reaches.trans (h : s.Reaches source m) (h' : m.Reaches source s') :
    s.Reaches source s' := by
  obtain ⟨before, hBefore⟩ := h
  obtain ⟨after, hAfter⟩ := h'
  refine ⟨before ++ after, ?_⟩
  rw [run_append, hBefore]
  exact hAfter

theorem reaches_of_step {e : Event κ} (h : s.step source e = some s') : s.Reaches source s' := by
  refine ⟨[e], ?_⟩
  rw [run, h]
  rfl

theorem Orderly.reached (hs : Orderly s) (h : s.Reaches source s') : Orderly s' := by
  obtain ⟨events, hRun⟩ := h
  exact run_keeps (fun _ _ _ hs hStep => hs.step hStep) hs hRun

theorem reaches_fire (e : Event κ) : s.Reaches source (s.fire source e) := by
  unfold fire
  cases hStep : s.step source e with
  | none => exact .refl s
  | some next => exact reaches_of_step hStep

theorem reaches_passTo (moment : Nat) : s.Reaches source (s.passTo source moment) :=
  reaches_fire _

/-! ## Turns -/

theorem step_work_of_task (hTask : s.task? t.id = some t) {began ready : Nat}
    {rest : Refresh κ ν σ (Except String Unit)} (hPhase : t.phase = .refreshing began ready rest)
    (hReady : ready ≤ s.place.clock.now) :
    s.step source (.work t.id) = some (s.work t began rest) := by
  simp only [step, hTask, Option.bind_some, hPhase, if_pos hReady]

/-- A task that goes on goes on from its latest phase. -/
theorem proceed_enterPhase (phase : Phase κ ν σ) (began : Nat)
    (rest : Refresh κ ν σ (Except String Unit)) :
    (s.enterPhase t phase).proceed { t with phase } began rest = s.proceed t began rest :=
  work_enterPhase (s := { s with place := (rest.proceed s.place).2 }) phase began _

/-- An action that leads to more of a refresh is an event, after which the task goes on. -/
theorem reaches_act {rest : Refresh κ ν σ (Except String Unit)} {began ready : Nat}
    (hTask : s.task? t.id = some t) (hPhase : t.phase = .refreshing began ready rest)
    (hReady : ready ≤ s.place.clock.now) (hClock : (rest.step s.place).2.clock = s.place.clock)
    (hWork : s.work t began rest = { s with place := (rest.step s.place).2 }.enterPhase t
      (.refreshing began s.place.clock.now (rest.step s.place).1))
    (hProceed : rest.proceed s.place = (rest.step s.place).1.proceed (rest.step s.place).2)
    (more : ∀ {m : State κ ν σ} {u : Task κ ν σ} {later : Nat}, m.task? u.id = some u →
      u.phase = .refreshing began later (rest.step s.place).1 → later ≤ m.place.clock.now →
      m.Reaches source (m.proceed u began (rest.step s.place).1)) :
    s.Reaches source (s.proceed t began rest) := by
  have hStep : s.step source (.work t.id) = some (s.work t began rest) :=
    step_work_of_task hTask hPhase hReady
  -- an act takes no time, so the task is ready again at once and the rest follows from there
  have hSame : { s with place := (rest.step s.place).2 }.task? t.id = some t := hTask
  have hNow : s.place.clock.now ≤ (rest.step s.place).2.clock.now := Nat.le_of_eq (by rw [hClock])
  have hGoesOn : s.proceed t began rest =
      { s with place := (rest.step s.place).2 }.proceed t began (rest.step s.place).1 := by
    simp only [proceed, hProceed]
  rw [hWork] at hStep
  rw [hGoesOn, ← proceed_enterPhase (.refreshing began s.place.clock.now (rest.step s.place).1)]
  exact (reaches_of_step hStep).trans (more (task?_enterPhase hSame _) rfl hNow)

/-- The actions of a task up to its next pause are events. -/
theorem reaches_proceed (rest : Refresh κ ν σ (Except String Unit)) {began ready : Nat}
    (hTask : s.task? t.id = some t) (hPhase : t.phase = .refreshing began ready rest)
    (hReady : ready ≤ s.place.clock.now) : s.Reaches source (s.proceed t began rest) := by
  induction rest generalizing s t ready with
  | done result => exact reaches_of_step (step_work_of_task hTask hPhase hReady)
  | wait duration next => exact reaches_of_step (step_work_of_task hTask hPhase hReady)
  | set | change =>
    rename_i ih
    exact reaches_act hTask hPhase hReady rfl rfl rfl ih
  | clock next ih | lastUpdated key next ih | get key next ih | look next ih =>
    exact reaches_act hTask hPhase hReady rfl rfl rfl (ih _)

/-- A turn of a task is one event or several. -/
theorem reaches_turn (hTask : s.task? t.id = some t) (h : s.turn? source t = some s') :
    s.Reaches source s' := by
  unfold turn? at h
  split at h
  · -- a task at rest leaves if it may, and ticks if not
    cases hLeave : s.step source (.leave t.id) with
    | some next =>
      rw [hLeave, Option.orElse_some] at h
      obtain rfl := Option.some.inj h
      exact reaches_of_step hLeave
    | none =>
      rw [hLeave, Option.orElse_none] at h
      exact reaches_of_step h
  · exact reaches_of_step h
  · rename_i began ready rest hPhase
    split at h
    · rename_i hReady
      obtain rfl := Option.some.inj h
      exact reaches_proceed rest hTask hPhase hReady
    · exact reaches_of_step h
  · exact reaches_of_step h

theorem reaches_closingTurn (h : s.closingTurn? source id = some s') : s.Reaches source s' := by
  unfold closingTurn? at h
  cases hClosed : s.step source (.closed id) with
  | some next =>
    rw [hClosed, Option.orElse_some] at h
    obtain rfl := Option.some.inj h
    exact reaches_of_step hClosed
  | none =>
    rw [hClosed, Option.orElse_none] at h
    exact reaches_of_step h

theorem reaches_ownTurn (h : s.ownTurn? source id = some s') : s.Reaches source s' := by
  unfold ownTurn? at h
  split at h
  · rename_i u hTask
    obtain ⟨-, rfl⟩ := mem_of_task? hTask
    exact reaches_turn hTask h
  · exact reaches_closingTurn h

/-! ## Many turns -/

theorem reaches_drive (turns : Nat) : s.Reaches source (drive source id turns s) := by
  induction turns generalizing s with
  | zero => exact .refl s
  | succ turns ih =>
    rw [drive]
    split
    · exact .refl s
    · rename_i next hTurn
      exact (reaches_ownTurn hTurn).trans ih

/-- Tasks are told apart by their numbers, so that a task that takes a turn is found by its own. -/
theorem Orderly.reaches_settleOthers (h : Orderly s) (own : Option Nat) (turns : Nat) :
    s.Reaches source (settleOthers source own turns s) := by
  induction turns generalizing s with
  | zero => exact .refl s
  | succ turns ih =>
    rw [settleOthers]
    split
    · exact .refl s
    · rename_i next hTurn
      obtain ⟨u, hu, hNext⟩ := List.exists_of_findSome?_eq_some hTurn
      have hMem : u ∈ s.tasks := (List.mem_filter.1 hu).1
      have hReached := reaches_turn (task?_of_mem h.ids_nodup hMem) hNext
      exact hReached.trans (ih (h.reached hReached))

theorem Orderly.reaches_settle (h : Orderly s) : s.Reaches source (s.settle source) :=
  h.reaches_settleOthers none _

theorem Orderly.reaches_awaitFor (h : Orderly s) (rounds : Nat) :
    s.Reaches source (awaitFor source id rounds s) := by
  induction rounds generalizing s with
  | zero => exact .refl s
  | succ rounds ih =>
    have hDriven : s.Reaches source (drive source id s.turnBound s) := reaches_drive _
    rw [awaitFor]
    -- each round drives the awaited task, then the others, then lets time pass: three runs in a row
    generalize drive source id s.turnBound s = driven at hDriven
    have hSettled := hDriven.trans ((h.reached hDriven).reaches_settleOthers (some id)
      driven.turnBound)
    dsimp only
    generalize settleOthers source (some id) driven.turnBound driven = settled at hSettled
    have hOrderly : Orderly settled := h.reached hSettled
    split
    · exact hDriven
    split
    · exact hSettled.trans (ih hOrderly)
    split
    · exact hSettled
    · rename_i moment _
      have hPassed : settled.Reaches source (settled.passTo source moment) := reaches_passTo moment
      exact hSettled.trans (hPassed.trans (ih (hOrderly.reached hPassed)))

theorem Orderly.reaches_await (h : Orderly s) : s.Reaches source (s.await source id) :=
  h.reaches_awaitFor _

theorem Orderly.reaches_sleepUntil (h : Orderly s) (moment rounds : Nat) :
    s.Reaches source (sleepUntil source moment rounds s) := by
  induction rounds generalizing s with
  | zero => exact reaches_passTo moment
  | succ rounds ih =>
    have hSettled : s.Reaches source (s.settle source) := h.reaches_settle
    rw [sleepUntil]
    generalize s.settle source = settled at hSettled
    have hOrderly : Orderly settled := h.reached hSettled
    split
    · exact hSettled.trans (reaches_passTo moment)
    · -- a wait is cut at every moment when something is due on the way
      rename_i due _
      have hPassed : settled.Reaches source (settled.passTo source due) := reaches_passTo due
      split
      · exact hSettled.trans (hPassed.trans (ih (hOrderly.reached hPassed)))
      · exact hSettled.trans (reaches_passTo moment)

theorem Orderly.reaches_sleep (h : Orderly s) (duration : Nat) :
    s.Reaches source (s.sleep source duration) := by
  unfold sleep
  dsimp only
  split
  · exact .refl s
  · exact h.reaches_sleepUntil _ _

/-! ## Calls -/

/-- What a caller does is a call, and then it waits for the call to return. -/
theorem Orderly.reaches_await_fire (h : Orderly s) (e : Event κ) :
    s.Reaches source ((s.fire source e).await source id) :=
  (reaches_fire e).trans (h.reached (reaches_fire e)).reaches_await

theorem Orderly.reaches_start (h : Orderly s) : s.Reaches source (s.start source).2 :=
  h.reaches_await_fire .start

theorem Orderly.reaches_close (h : Orderly s) (timeout : Nat) :
    s.Reaches source (s.close source timeout).2 :=
  h.reaches_await_fire (.close timeout)

theorem Orderly.reaches_update (h : Orderly s) (key : κ) :
    s.Reaches source (s.update source key) :=
  h.reaches_await_fire (.update key)

theorem Orderly.reaches_updateAside (h : Orderly s) (key : κ) :
    s.Reaches source (s.updateAside source key) :=
  (reaches_fire _).trans (h.reached (reaches_fire _)).reaches_settle

theorem reaches_get (key : κ) : s.Reaches source (s.get source key).2 := reaches_fire (.get key)

/-- The states that calls on a timeline lead to, one call after the other. -/
inductive OnTimeline (source : Source κ ν σ) (s : State κ ν σ) : State κ ν σ → Prop
  | here : OnTimeline source s s
  | start {m : State κ ν σ} (h : OnTimeline source s m) : OnTimeline source s (m.start source).2
  | close {m : State κ ν σ} (h : OnTimeline source s m) (timeout : Nat) :
    OnTimeline source s (m.close source timeout).2
  | update {m : State κ ν σ} (h : OnTimeline source s m) (key : κ) :
    OnTimeline source s (m.update source key)
  | updateAside {m : State κ ν σ} (h : OnTimeline source s m) (key : κ) :
    OnTimeline source s (m.updateAside source key)
  | sleep {m : State κ ν σ} (h : OnTimeline source s m) (duration : Nat) :
    OnTimeline source s (m.sleep source duration)
  | get {m : State κ ν σ} (h : OnTimeline source s m) (key : κ) :
    OnTimeline source s (m.get source key).2

/-- Calls on a timeline are a run of events. -/
theorem OnTimeline.reaches (h : OnTimeline source s s') (hs : Orderly s) :
    s.Reaches source s' := by
  induction h with
  | here => exact .refl s
  | start _ ih => exact ih.trans (hs.reached ih).reaches_start
  | close _ timeout ih => exact ih.trans ((hs.reached ih).reaches_close timeout)
  | update _ key ih => exact ih.trans ((hs.reached ih).reaches_update key)
  | updateAside _ key ih => exact ih.trans ((hs.reached ih).reaches_updateAside key)
  | sleep _ duration ih => exact ih.trans ((hs.reached ih).reaches_sleep duration)
  | get _ key ih => exact ih.trans (reaches_get key)

/-- At no point between calls on a timeline are two tasks in a refresh. -/
theorem OnTimeline.length_began_le {options : CacheOptions} {surroundings : σ} {clock : Clock}
    (hMake : make options surroundings clock = .ok s) (h : OnTimeline source s s') :
    (s'.tasks.filter (·.began?.isSome)).length ≤ 1 :=
  ((Orderly.of_make hMake).reached (h.reaches (.of_make hMake))).length_began_le

end ItemComposition.Cache.State
