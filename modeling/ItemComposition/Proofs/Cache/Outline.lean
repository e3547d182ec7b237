import ItemComposition.Proofs.Cache.UpdateLock

/-!
# Calls and loops in outline

What a cache is to those who start and close it: which calls are in progress, which loops are alive
and which of them were told to stop, and who waits for which loop. The store, the clock and the
update lock are not part of this outline, so most events do not show in it (`Moves.rest`), and the
others do one of eleven things.

## Key results

- `State.outline`, `Moves`: the outline of a state, and how events change it
- `State.moves_of_step`: every event of a cache is such a move
-/

namespace ItemComposition.Cache

variable {κ ν σ : Type}

/-- What a task is to the callers of a cache. -/
inductive Duty where
  | start
  | update
  | loop (stopped : Bool)
  deriving DecidableEq

namespace Duty

/-- The duty of a task after it was told to stop, which only a loop takes in. -/
def told : Duty → Duty
  | loop _ => loop true
  | d => d

end Duty

/-- The duty of a part. -/
def Role.duty : Role κ → Duty
  | .start => .start
  | .update _ => .update
  | .loop _ stopped => .loop stopped

/-- A cache in outline: the tasks by their numbers, the waiting calls to close with the loops that
they wait for, and what the state of the cache says about handles, numbers and answers. -/
structure Outline where
  parts : List (Nat × Duty)
  closings : List (Nat × Nat)
  worker : Option Nat
  target : Option Nat
  fresh : Nat
  returned : List (Nat × Except CacheError Unit)

namespace Outline

/-- Whether a task has not ended. -/
def isAlive (o : Outline) (id : Nat) : Bool := o.parts.any (·.1 = id)

/-- Whether the cache counts as running. -/
def isRunning (o : Outline) : Bool := o.worker.any o.isAlive

/-- Notes how a call ended. -/
def answer (o : Outline) (id : Nat) (outcome : Except CacheError Unit) : Outline :=
  { o with returned := (id, outcome) :: o.returned }

/-- Adds a task. -/
def join (o : Outline) (duty : Duty) : Outline :=
  { o with parts := o.parts ++ [(o.fresh, duty)], fresh := o.fresh + 1 }

/-- Ends a task. -/
def drop (o : Outline) (id : Nat) : Outline := { o with parts := o.parts.filter (·.1 ≠ id) }

/-- Starts a loop and keeps its handle. -/
def launch (o : Outline) : Outline :=
  { o.join (.loop false) with worker := some o.fresh, target := some o.fresh }

/-- Tells the latest loop to stop. -/
def stopTarget (o : Outline) : Outline :=
  { o with parts := o.parts.map fun p => (p.1, if o.target = some p.1 then p.2.told else p.2) }

/-- Ends a call that waits for a loop. -/
def settle (o : Outline) (id : Nat) (outcome : Except CacheError Unit) : Outline :=
  { o.answer id outcome with closings := o.closings.filter (·.1 ≠ id) }

end Outline

/-- How an event changes the outline of a cache of a given name. -/
inductive Moves (name : String) (o : Outline) : Event κ → Outline → Prop where
  /-- A start is refused while the cache runs. -/
  | refused (running : o.isRunning = true) :
    Moves name o .start
      { o.answer o.fresh (.error (.alreadyStarted name)) with fresh := o.fresh + 1 }
  /-- A start is let in while it does not. -/
  | called (free : o.isRunning = false) : Moves name o .start (o.join .start)
  | updating (key : κ) : Moves name o (.update key) (o.join .update)
  /-- A call to close that finds no handle returns at once. -/
  | closedAtOnce (timeout : Nat) (free : o.worker = none) :
    Moves name o (.close timeout)
      { o.stopTarget.answer o.fresh (.ok ()) with fresh := o.fresh + 1 }
  /-- A call to close that finds a handle takes it and waits. -/
  | closing (timeout loop : Nat) (kept : o.worker = some loop) :
    Moves name o (.close timeout)
      { o.stopTarget with
        worker := none, closings := o.closings ++ [(o.fresh, loop)], fresh := o.fresh + 1 }
  /-- Nothing that callers see. -/
  | rest {e : Event κ} (notStart : e ≠ .start) (notClose : ∀ timeout, e ≠ .close timeout) :
    Moves name o e o
  | updated {id : Nat} (inProgress : (id, .update) ∈ o.parts) :
    Moves name o (.work id) ((o.drop id).answer id (.ok ()))
  | failed {id : Nat} (inProgress : (id, .start) ∈ o.parts) (reason : String) :
    Moves name o (.work id) ((o.drop id).answer id (.error (.refreshFailed name reason)))
  /-- A start succeeds, whether or not the cache runs by now. -/
  | launched {id : Nat} (inProgress : (id, .start) ∈ o.parts) :
    Moves name o (.work id) ((o.drop id).launch.answer id (.ok ()))
  | left {id : Nat} (told : (id, .loop true) ∈ o.parts) : Moves name o (.leave id) (o.drop id)
  | closed {id loop : Nat} (waits : (id, loop) ∈ o.closings) (gone : o.isAlive loop = false) :
    Moves name o (.closed id) (o.settle id (.ok ()))
  | gaveUp {id loop : Nat} (waits : (id, loop) ∈ o.closings) (e : CacheError) :
    Moves name o (.giveUp id) (o.settle id (.error e))

/-! ## Events as moves -/

namespace State

/-- The outline of a state. -/
def outline (s : State κ ν σ) : Outline where
  parts := s.tasks.map fun t => (t.id, t.role.duty)
  closings := s.closings.map fun c => (c.id, c.loop)
  worker := s.worker
  target := s.target
  fresh := s.fresh
  returned := s.returned

variable {s s' : State κ ν σ}

theorem mem_parts {t : Task κ ν σ} (h : t ∈ s.tasks) : (t.id, t.role.duty) ∈ s.outline.parts :=
  List.mem_map_of_mem h

theorem isAlive_outline (s : State κ ν σ) (id : Nat) : s.outline.isAlive id = s.isAlive id := by
  rw [Outline.isAlive, isAlive, task?, List.isSome_find?, outline, List.any_map]
  rfl

theorem isRunning_outline (s : State κ ν σ) : s.outline.isRunning = s.isRunning := by
  rw [Outline.isRunning, isRunning, outline]
  congr 1
  funext id
  exact isAlive_outline s id

theorem outline_dropTask (s : State κ ν σ) (id : Nat) :
    (s.dropTask id).outline = s.outline.drop id := by
  simp only [outline, Outline.drop, dropTask, List.filter_map]
  rfl

/-- Replacing a task by one of the same number and duty does not show. -/
theorem outline_putTask (nodup : (s.tasks.map Task.id).Nodup) {t u : Task κ ν σ}
    (ht : t ∈ s.tasks) (hId : u.id = t.id) (hDuty : u.role.duty = t.role.duty) :
    (s.putTask u).outline = s.outline := by
  simp only [outline, putTask, List.map_map]
  congr 1
  refine List.map_congr_left fun v hv => ?_
  by_cases hSame : v.id = u.id
  · obtain rfl : v = t := List.inj_on_of_nodup_map nodup hv ht (hSame.trans hId)
    simp [hId, hDuty]
  · simp [hSame]

theorem outline_stopTarget (s : State κ ν σ) :
    ((s.target.map s.stop).getD s).outline = s.outline.stopTarget := by
  cases hTarget : s.target with
  | none => simp [outline, Outline.stopTarget, hTarget]
  | some id =>
    -- only the loop that is told to stop changes its duty, and a role shows no more of it than that
    have hParts : (s.stop id).tasks.map (fun t => (t.id, t.role.duty)) =
        s.tasks.map fun t => (t.id, if some id = some t.id then t.role.duty.told else t.role.duty) := by
      simp only [stop, List.map_map]
      refine List.map_congr_left fun t _ => ?_
      cases hRole : t.role with
      | start | update => simp [hRole, Role.duty, Duty.told]
      | loop nextTick stopped =>
        by_cases hId : t.id = id
        · simp [hId, Role.duty, Duty.told, hRole]
        · simp [hId, Ne.symm hId, hRole, Role.duty]
    have hKept : (s.stop id).target = some id := hTarget
    simp only [Option.map_some, Option.getD_some, outline, Outline.stopTarget, hTarget, hParts,
      hKept, List.map_map, Function.comp_def]
    rfl

/-- A call to close stops the latest loop, and waits for the one whose handle it takes. -/
theorem moves_of_callClose (s : State κ ν σ) (timeout : Nat) :
    Moves s.options.name s.outline (.close timeout : Event κ) (s.callClose timeout).outline := by
  -- the loop is told to stop in either case; the cases differ in whether a call stays that waits
  -- for it
  have hStopped := outline_stopTarget s
  have hKept : s.outline.worker = s.worker := rfl
  unfold callClose
  cases hWorker : s.worker with
  | none =>
    have hMove : Moves s.options.name s.outline (.close timeout : Event κ) _ :=
      .closedAtOnce timeout (hKept.trans hWorker)
    rw [← hStopped] at hMove
    exact hMove
  | some loop =>
    have hMove : Moves s.options.name s.outline (.close timeout : Event κ) _ :=
      .closing timeout loop (hKept.trans hWorker)
    rw [← hStopped] at hMove
    simpa [outline] using hMove

/-- A refresh that ends ends the call that made it, and is nothing to see for a loop. -/
theorem moves_of_finish (hOrderly : Orderly s) {t : Task κ ν σ} (ht : t ∈ s.tasks)
    (result : Except String Unit) :
    Moves s.options.name s.outline (.work t.id : Event κ) (s.finish t result).outline := by
  have hPart := mem_parts ht
  unfold finish
  cases hRole : t.role with
  | start =>
    -- a start that failed leaves nothing behind, one that succeeded launches the loop
    rw [hRole] at hPart
    cases result with
    | error reason =>
      have hMove : Moves s.options.name s.outline (.work t.id : Event κ) _ := .failed hPart reason
      rw [← outline_dropTask] at hMove
      exact hMove
    | ok u =>
      have hMove : Moves s.options.name s.outline (.work t.id : Event κ) _ := .launched hPart
      rw [← outline_dropTask] at hMove
      simpa [Outline.launch, Outline.join, outline, launch, release, answer, Role.duty,
        Outline.answer] using hMove
  | update key =>
    rw [hRole] at hPart
    have hMove : Moves s.options.name s.outline (.work t.id : Event κ) _ := .updated hPart
    rw [← outline_dropTask] at hMove
    exact hMove
  | loop nextTick stopped =>
    -- a loop that ends its refresh goes on to the sweep, which the outline does not show
    have hSame : (s.enterPhase t .sweeping).outline = s.outline :=
      outline_putTask hOrderly.ids_nodup ht rfl rfl
    simp only
    rw [hSame]
    exact .rest (by simp) (by simp)

variable [DecidableEq κ] {source : Source κ ν σ}

/-- Every event is one of the moves. -/
theorem moves_of_step (hOrderly : Orderly s) {e : Event κ} (hStep : s.step source e = some s') :
    Moves s.options.name s.outline e s'.outline := by
  -- most events replace a task by one of the same duty, which does not show
  cases e with
  | start =>
    obtain rfl := Option.some.inj hStep
    unfold callStart
    split
    · rename_i hRunning
      exact .refused (by rw [isRunning_outline, hRunning])
    · rename_i hRunning
      have hFree : s.outline.isRunning = false := by
        rw [isRunning_outline, Bool.eq_false_iff]
        exact hRunning
      have hMove : Moves s.options.name s.outline (.start : Event κ) _ := .called hFree
      simpa [outline, Outline.join, addWaiting, Role.duty] using hMove
  | update key =>
    obtain rfl := Option.some.inj hStep
    have hMove : Moves s.options.name s.outline (.update key) _ := .updating key
    simpa [outline, Outline.join, addWaiting, Role.duty] using hMove
  | close timeout =>
    obtain rfl := Option.some.inj hStep
    exact moves_of_callClose s timeout
  | get key =>
    obtain rfl := Option.some.inj hStep
    exact .rest (by simp) (by simp)
  | enter id =>
    obtain ⟨t, ht, rfl, -, -, rfl⟩ := step_enter hStep
    have hSame : (s.begin source t).outline = s.outline :=
      outline_putTask hOrderly.ids_nodup ht rfl rfl
    rw [hSame]
    exact .rest (by simp) (by simp)
  | work id =>
    obtain ⟨t, ht, rfl, began, ready, rest, -, -, rfl⟩ := step_work hStep
    rcases work_cases s t began rest with ⟨result, -, hWork⟩ | ⟨place, ready, next, -, -, hWork⟩
    · rw [hWork]
      exact moves_of_finish hOrderly ht result
    · have hSame : ({ s with place }.enterPhase t (.refreshing began ready next)).outline =
          s.outline := outline_putTask (s := { s with place }) hOrderly.ids_nodup ht rfl rfl
      rw [hWork, hSame]
      exact .rest (by simp) (by simp)
  | cutOff id =>
    obtain ⟨t, ht, rfl, -, rfl⟩ := step_cutOff hStep
    have hSame : (s.enterPhase t .sweeping).outline = s.outline :=
      outline_putTask hOrderly.ids_nodup ht rfl rfl
    rw [hSame]
    exact .rest (by simp) (by simp)
  | sweep id =>
    obtain ⟨t, ht, rfl, -, rfl⟩ := step_sweep hStep
    have hSame : ({ s with place := { s.place with
        store := (s.place.store.cleanUp s.place.clock.wall).1 } }.enterPhase t .idle).release.outline =
        s.outline := outline_putTask (s := { s with place := { s.place with
          store := (s.place.store.cleanUp s.place.clock.wall).1 } }) hOrderly.ids_nodup ht rfl rfl
    rw [hSame]
    exact .rest (by simp) (by simp)
  | tick id =>
    obtain ⟨t, ht, rfl, -, nextTick, hRole, -, rfl⟩ := step_tick hStep
    have hSame : ({ s.putTask ⟨t.id, .loop (s.tickAfter nextTick) false, .waiting⟩ with
        line := s.line ++ [t.id] }).outline = s.outline :=
      outline_putTask hOrderly.ids_nodup ht rfl (by simp only [hRole, Role.duty])
    rw [hSame]
    exact .rest (by simp) (by simp)
  | leave id =>
    obtain ⟨t, ht, rfl, -, ⟨nextTick, hRole⟩, rfl⟩ := step_leave hStep
    have hPart := mem_parts ht
    rw [hRole] at hPart
    rw [outline_dropTask]
    exact .left hPart
  | closed id =>
    obtain ⟨c, hc, rfl, hOver, rfl⟩ := step_closed hStep
    have hWaits : (c.id, c.loop) ∈ s.outline.closings := List.mem_map_of_mem hc
    have hGone : s.outline.isAlive c.loop = false := by rw [isAlive_outline, hOver]
    have hMove : Moves s.options.name s.outline (.closed c.id : Event κ) _ := .closed hWaits hGone
    simpa [outline, Outline.settle, Outline.answer, answer, List.filter_map, Function.comp_def]
      using hMove
  | giveUp id =>
    obtain ⟨c, hc, rfl, -, rfl⟩ := step_giveUp hStep
    have hWaits : (c.id, c.loop) ∈ s.outline.closings := List.mem_map_of_mem hc
    have hMove : Moves s.options.name s.outline (.giveUp c.id : Event κ) _ :=
      .gaveUp hWaits (.shutdownTimeout s.options.name c.timeout)
    simpa [outline, Outline.settle, Outline.answer, answer, List.filter_map, Function.comp_def]
      using hMove
  | pass duration wall =>
    obtain ⟨-, rfl⟩ := step_pass hStep
    exact .rest (by simp) (by simp)

end State

end ItemComposition.Cache
