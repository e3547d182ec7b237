import ItemComposition.Cache.Error
import ItemComposition.Cache.Refresh

/-!
# A running cache and its events

A cache has a store, a source of entries, and tasks that use both: calls that start it, calls
that update a key, and its background loop. The tasks take turns through one update lock, first
come first served. Calls that close the cache tell a loop to stop and wait for its end.

What happens is a sequence of events; `State.step` says when an event can happen and what it
does. Between any two actions of a task another task may act, so every interleaving is a sequence
of events. Time passes in an event of its own, which never skips the moment at which a refresh of
the loop has to be cut off.

## Main definitions

- `Task`, `Phase`: who takes part, and how far each is
- `State.step`: the effect of an event, or `none` when it cannot happen
- `State.isRunning`, `State.isAlive`: whether a cache counts as running, and whether a loop lives
-/

namespace ItemComposition.Cache

/-- The part that a task plays. -/
inductive Role (κ : Type) where
  /-- A call that starts the cache. -/
  | start
  /-- A call that refreshes a key. -/
  | update (key : κ)
  /-- The background loop, with the time of its next tick and whether it has been told to stop. -/
  | loop (nextTick : Nat) (stopped : Bool)

/-- How far a task is. -/
inductive Phase (κ ν σ : Type) where
  /-- Between two ticks. -/
  | idle
  /-- In line for the update lock. -/
  | waiting
  /-- In a refresh that began at a time, whose next action is not before `ready`. -/
  | refreshing (began ready : Nat) (rest : Refresh κ ν σ (Except String Unit))
  /-- About to sweep the store. -/
  | sweeping

/-- A task: a call in progress, or a loop. -/
structure Task (κ ν σ : Type) where
  id : Nat
  role : Role κ
  phase : Phase κ ν σ

namespace Task

variable {κ ν σ : Type}

/-- Whether a refresh of a loop has reached the end of its time by a given moment. -/
def isOverdue (ttl now : Nat) (t : Task κ ν σ) : Bool :=
  match t.role, t.phase with
  | .loop .., .refreshing began _ _ => began + ttl ≤ now
  | _, _ => false

/-- Whether a refresh of a loop would be past the end of its time at a given moment. -/
def isPast (ttl now : Nat) (t : Task κ ν σ) : Bool :=
  match t.role, t.phase with
  | .loop .., .refreshing began _ _ => began + ttl < now
  | _, _ => false

end Task

/-- A call that waits for a loop to end, up to a time. -/
structure Closing where
  id : Nat
  loop : Nat
  timeout : Nat
  limit : Nat
  deriving Repr, DecidableEq

/-- The state of a cache. -/
structure State (κ ν σ : Type) where
  options : CacheOptions
  place : Workplace κ ν σ
  /-- The tasks that hold or wait for the update lock; the first one holds it. -/
  line : List Nat
  tasks : List (Task κ ν σ)
  closings : List Closing
  /-- The loop whose end the next call to close waits for. -/
  worker : Option Nat
  /-- The loop that the next call to close stops. -/
  target : Option Nat
  /-- The number of the next task. -/
  fresh : Nat
  /-- How the calls ended, the latest first. -/
  returned : List (Nat × Except CacheError Unit)

/-- What can happen to a cache. -/
inductive Event (κ : Type) where
  /-- A call to start, to update a key, or to close. -/
  | start
  | update (key : κ)
  | close (timeout : Nat)
  /-- A look-up. -/
  | get (key : κ)
  /-- The first task in line begins to work. -/
  | enter (id : Nat)
  /-- A task takes the next action of its refresh. -/
  | work (id : Nat)
  /-- The refresh of a loop is cut off. -/
  | cutOff (id : Nat)
  /-- A loop sweeps the store. -/
  | sweep (id : Nat)
  /-- A loop begins a tick. -/
  | tick (id : Nat)
  /-- A loop that was told to stop ends. -/
  | leave (id : Nat)
  /-- A call to close sees that the loop has ended. -/
  | closed (id : Nat)
  /-- A call to close gives up. -/
  | giveUp (id : Nat)
  /-- Time passes on both clocks. -/
  | pass (duration wall : Nat)

/-- A tick that is later than this is followed by the next one a whole period after it. -/
def tickTolerance : Nat := 5 * TimeUnit.millisecond.nanos

namespace State

variable {κ ν σ : Type}

/-- The cache with an empty store, before anything has happened. Without a lifetime there is no
period to refresh by. -/
def make (options : CacheOptions) (surroundings : σ) (clock : Clock) :
    Except CacheError (State κ ν σ) :=
  if options.ttl = 0 then
    .error (.invalidOptions options.name "ttl must be greater than zero")
  else
    .ok {
      options
      place := ⟨clock, surroundings, .empty options.policy options.ttl options.capacity⟩
      line := [], tasks := [], closings := [], worker := none, target := none, fresh := 0
      returned := [] }

/-- The task with a number. -/
def task? (s : State κ ν σ) (id : Nat) : Option (Task κ ν σ) := s.tasks.find? (·.id = id)

/-- Whether a task has not ended. -/
def isAlive (s : State κ ν σ) (id : Nat) : Bool := (s.task? id).isSome

/-- Whether the cache counts as running: it keeps the handle of a loop that has not ended. -/
def isRunning (s : State κ ν σ) : Bool := s.worker.any s.isAlive

/-- Replaces the task of the same number. -/
def putTask (s : State κ ν σ) (t : Task κ ν σ) : State κ ν σ :=
  { s with tasks := s.tasks.map (fun u => if u.id = t.id then t else u) }

/-- Puts a task into a phase. -/
def enterPhase (s : State κ ν σ) (t : Task κ ν σ) (phase : Phase κ ν σ) : State κ ν σ :=
  s.putTask { t with phase }

/-- Ends a task. -/
def dropTask (s : State κ ν σ) (id : Nat) : State κ ν σ :=
  { s with tasks := s.tasks.filter (·.id ≠ id) }

/-- Gives the update lock to the next in line. -/
def release (s : State κ ν σ) : State κ ν σ := { s with line := s.line.tail }

/-- Notes how a call ended. -/
def answer (s : State κ ν σ) (id : Nat) (outcome : Except CacheError Unit) : State κ ν σ :=
  { s with returned := (id, outcome) :: s.returned }

/-- Adds a task that is in line for the update lock. -/
def addWaiting (s : State κ ν σ) (role : Role κ) : State κ ν σ :=
  { s with
    tasks := s.tasks ++ [⟨s.fresh, role, .waiting⟩]
    line := s.line ++ [s.fresh]
    fresh := s.fresh + 1 }

/-- Starts a loop, which becomes the one that calls to close are about. -/
def launch (s : State κ ν σ) : State κ ν σ :=
  let loop : Role κ := .loop (s.place.clock.now + s.options.ttl) false
  { s with
    tasks := s.tasks ++ [⟨s.fresh, loop, .idle⟩]
    worker := some s.fresh
    target := some s.fresh
    fresh := s.fresh + 1 }

/-- Tells a loop to stop. It ends when it is between two ticks. -/
def stop (s : State κ ν σ) (id : Nat) : State κ ν σ :=
  { s with tasks := s.tasks.map (fun t =>
      match t.role with
      | .loop nextTick _ => if t.id = id then { t with role := .loop nextTick true } else t
      | _ => t) }

/-- A call to start: refused while the cache runs, else in line for the first refresh. -/
def callStart (s : State κ ν σ) : State κ ν σ :=
  if s.isRunning then
    { s.answer s.fresh (.error (.alreadyStarted s.options.name)) with fresh := s.fresh + 1 }
  else s.addWaiting .start

/-- A call to close: stops the loop and, when there is a handle, takes it and waits. -/
def callClose (s : State κ ν σ) (timeout : Nat) : State κ ν σ :=
  let stopped := (s.target.map s.stop).getD s
  match s.worker with
  | none => { stopped.answer s.fresh (.ok ()) with fresh := s.fresh + 1 }
  | some loop =>
    { stopped with
      worker := none
      closings := s.closings ++ [⟨s.fresh, loop, timeout, s.place.clock.now + timeout⟩]
      fresh := s.fresh + 1 }

/-- What the first in line does: calls refresh, a loop refreshes only without a bound on its
store, and else goes on to sweep. -/
def begin (source : Source κ ν σ) (s : State κ ν σ) (t : Task κ ν σ) : State κ ν σ :=
  let now := s.place.clock.now
  s.enterPhase t <|
    match t.role, s.options.policy with
    | .start, _ => .refreshing now now source.full
    | .update key, _ => .refreshing now now (source.single key)
    | .loop .., .background => .refreshing now now source.full
    | .loop .., .lru => .sweeping

/-- What follows a refresh that has ended: a call gives the lock up and returns, and a start that
succeeded launches the loop. How an update ends is not told. -/
def finish (s : State κ ν σ) (t : Task κ ν σ) (result : Except String Unit) : State κ ν σ :=
  match t.role with
  | .start =>
    let ended := (s.dropTask t.id).release
    match result with
    | .ok _ => ended.launch.answer t.id (.ok ())
    | .error reason => ended.answer t.id (.error (.refreshFailed s.options.name reason))
  | .update _ => ((s.dropTask t.id).release).answer t.id (.ok ())
  | .loop .. => s.enterPhase t .sweeping

/-- The time of the tick after one that happens now. -/
def tickAfter (s : State κ ν σ) (planned : Nat) : Nat :=
  if planned + tickTolerance < s.place.clock.now then s.place.clock.now + s.options.ttl
  else planned + s.options.ttl

variable [DecidableEq κ]

/-- The next action of a refresh, or what follows its end. -/
def work (s : State κ ν σ) (t : Task κ ν σ) (began : Nat)
    (rest : Refresh κ ν σ (Except String Unit)) : State κ ν σ :=
  match rest with
  | .done result => s.finish t result
  | .wait duration next =>
    s.enterPhase t (.refreshing began (s.place.clock.now + duration) next)
  | _ =>
    let (next, place) := rest.step s.place
    { s with place }.enterPhase t (.refreshing began s.place.clock.now next)

/-- The effect of an event, or `none` when the event cannot happen. -/
def step (source : Source κ ν σ) (s : State κ ν σ) : Event κ → Option (State κ ν σ)
  | .start => some s.callStart
  | .update key => some (s.addWaiting (.update key))
  | .close timeout => some (s.callClose timeout)
  | .get key =>
    some { s with place := { s.place with store := (s.place.store.get key s.place.clock.wall).1 } }
  | .enter id =>
    (s.task? id).bind fun t =>
      -- only the first of the line begins, and only it may be refreshing
      match t.phase with
      | .waiting => if s.line.head? = some id then some (s.begin source t) else none
      | _ => none
  | .work id =>
    (s.task? id).bind fun t =>
      match t.phase with
      | .refreshing began ready rest =>
        if ready ≤ s.place.clock.now then some (s.work t began rest) else none
      | _ => none
  | .cutOff id =>
    (s.task? id).bind fun t =>
      if t.isOverdue s.options.ttl s.place.clock.now then some (s.enterPhase t .sweeping)
      else none
  | .sweep id =>
    (s.task? id).bind fun t =>
      match t.phase with
      | .sweeping =>
        let store := (s.place.store.cleanUp s.place.clock.wall).1
        some ({ s with place := { s.place with store } }.enterPhase t .idle).release
      | _ => none
  | .tick id =>
    (s.task? id).bind fun t =>
      match t.role, t.phase with
      | .loop nextTick false, .idle =>
        if nextTick ≤ s.place.clock.now then
          -- the next tick is planned now, however long the refresh takes
          let ticking := s.putTask ⟨t.id, .loop (s.tickAfter nextTick) false, .waiting⟩
          some { ticking with line := s.line ++ [id] }
        else none
      | _, _ => none
  | .leave id =>
    (s.task? id).bind fun t =>
      match t.role, t.phase with
      | .loop _ true, .idle => some (s.dropTask id)
      | _, _ => none
  | .closed id =>
    (s.closings.find? (·.id = id)).bind fun c =>
      if s.isAlive c.loop then none
      else some { s.answer id (.ok ()) with closings := s.closings.filter (·.id ≠ id) }
  | .giveUp id =>
    (s.closings.find? (·.id = id)).bind fun c =>
      -- a loop that has just ended counts as closed, even at the limit
      if s.isAlive c.loop && c.limit ≤ s.place.clock.now then
        some { s.answer id (.error (.shutdownTimeout s.options.name c.timeout)) with
          closings := s.closings.filter (·.id ≠ id) }
      else none
  | .pass duration wall =>
    let now := s.place.clock.now + duration
    -- time never passes the moment at which a refresh must be cut off
    if s.tasks.any (Task.isPast s.options.ttl now) then none
    else some { s with place := { s.place with clock := ⟨now, s.place.clock.wall + wall⟩ } }

/-- How a call ended, if it has. -/
def outcome? (s : State κ ν σ) (id : Nat) : Option (Except CacheError Unit) :=
  (s.returned.find? (·.1 = id)).map (·.2)

end State

end ItemComposition.Cache
