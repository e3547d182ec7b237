import ItemComposition.Cache.State

/-!
# A cache on a timeline

Of all the ways in which the events of a cache can follow each other, the timeline picks one:
every task goes on as soon as it can, time passes only when all of them wait, and it passes up to
the next moment at which something is due. A caller takes part as one more party: what it waits
for is looked at before the other tasks act at that moment.

Every change of a state on a timeline is an event of `State.step`, or a run of actions of one
task up to its next pause.

## Main definitions

- `State.await`: lets time pass until a call has returned
- `State.sleep`: lets a duration pass
- `State.settle`: lets every task go on as far as it can at this moment
-/

namespace ItemComposition.Cache.State

variable {κ ν σ : Type} [DecidableEq κ]

/-- Lets an event happen, if it can. -/
def fire (source : Source κ ν σ) (s : State κ ν σ) (e : Event κ) : State κ ν σ :=
  (s.step source e).getD s

/-- The actions of a task up to its next pause or to the end of its refresh, and what follows. -/
def proceed (s : State κ ν σ) (t : Task κ ν σ) (began : Nat)
    (rest : Refresh κ ν σ (Except String Unit)) : State κ ν σ :=
  let (next, place) := rest.proceed s.place
  { s with place }.work t began next

/-- What a task does now, or `none` while it has to wait. A refresh that can go on does so even
at the moment at which it would be cut off. -/
def turn? (source : Source κ ν σ) (s : State κ ν σ) (t : Task κ ν σ) : Option (State κ ν σ) :=
  match t.phase with
  | .idle => (s.step source (.leave t.id)).orElse fun _ => s.step source (.tick t.id)
  | .waiting => s.step source (.enter t.id)
  | .refreshing began ready rest =>
    if ready ≤ s.place.clock.now then some (s.proceed t began rest)
    else s.step source (.cutOff t.id)
  | .sweeping => s.step source (.sweep t.id)

/-- What a call to close does now, or `none` while it has to wait. -/
def closingTurn? (source : Source κ ν σ) (s : State κ ν σ) (id : Nat) : Option (State κ ν σ) :=
  (s.step source (.closed id)).orElse fun _ => s.step source (.giveUp id)

/-- What the task or call with a number does now. -/
def ownTurn? (source : Source κ ν σ) (s : State κ ν σ) (id : Nat) : Option (State κ ν σ) :=
  match s.task? id with
  | some t => s.turn? source t
  | none => s.closingTurn? source id

/-- The time from which a task can go on by itself. -/
def due? (ttl : Nat) (t : Task κ ν σ) : Option Nat :=
  match t.role, t.phase with
  | .loop nextTick stopped, .idle => if stopped then none else some nextTick
  | .loop .., .refreshing began ready _ => some (min ready (began + ttl))
  | _, .refreshing _ ready _ => some ready
  | _, _ => none

/-- The next moment at which a task or a call can go on by itself. -/
def nextDue? (s : State κ ν σ) : Option Nat :=
  (s.tasks.filterMap (due? s.options.ttl) ++ s.closings.map (·.limit)).min?

/-- Lets time pass up to a moment. -/
def passTo (source : Source κ ν σ) (s : State κ ν σ) (moment : Nat) : State κ ν σ :=
  s.fire source (.pass (moment - s.place.clock.now) 0)

/-- More turns than the tasks take at one moment. -/
def turnBound (s : State κ ν σ) : Nat := 16 * (s.tasks.length + s.closings.length + 2)

/-- Lets every task but the one with a given number go on, up to a number of turns. -/
def settleOthers (source : Source κ ν σ) (own : Option Nat) : Nat → State κ ν σ → State κ ν σ
  | 0, s => s
  | turns + 1, s =>
    match (s.tasks.filter (fun t => some t.id ≠ own)).findSome? (s.turn? source) with
    | none => s
    | some s => settleOthers source own turns s

/-- Lets every task go on as far as it can at this moment. -/
def settle (source : Source κ ν σ) (s : State κ ν σ) : State κ ν σ :=
  settleOthers source none s.turnBound s

/-- Lets the task or call with a number go on as far as it can. -/
def drive (source : Source κ ν σ) (id : Nat) : Nat → State κ ν σ → State κ ν σ
  | 0, s => s
  | turns + 1, s =>
    match s.ownTurn? source id with
    | none => s
    | some s => drive source id turns s

/-- Lets time pass until the call with a number has returned: at each moment the call goes on
first, and then the others. -/
def awaitFor (source : Source κ ν σ) (id : Nat) : Nat → State κ ν σ → State κ ν σ
  | 0, s => s
  | rounds + 1, s =>
    let s := drive source id s.turnBound s
    if (s.outcome? id).isSome then s
    else
      let s := settleOthers source (some id) s.turnBound s
      if (s.ownTurn? source id).isSome then awaitFor source id rounds s
      else
        -- nobody can go on now, so time passes to the next moment at which somebody can
        match s.nextDue? with
        | none => s
        | some moment => awaitFor source id rounds (s.passTo source moment)

/-- Lets time pass until the call with a number has returned. -/
def await (source : Source κ ν σ) (id : Nat) (s : State κ ν σ) : State κ ν σ :=
  awaitFor source id (4 * s.turnBound) s

/-- Lets time pass up to a moment; what is due at that moment itself is left to happen. -/
def sleepUntil (source : Source κ ν σ) (moment : Nat) : Nat → State κ ν σ → State κ ν σ
  | 0, s => s.passTo source moment
  | rounds + 1, s =>
    let s := s.settle source
    match s.nextDue? with
    | none => s.passTo source moment
    | some due =>
      if due < moment then sleepUntil source moment rounds (s.passTo source due)
      else s.passTo source moment

/-- Lets a duration pass. -/
def sleep (source : Source κ ν σ) (duration : Nat) (s : State κ ν σ) : State κ ν σ :=
  let rounds := (duration / s.options.ttl + 2) * s.turnBound
  if duration = 0 then s else sleepUntil source (s.place.clock.now + duration) rounds s

/-- Calls start and waits for it to return. -/
def start (source : Source κ ν σ) (s : State κ ν σ) :
    Except CacheError Unit × State κ ν σ :=
  let after := (s.fire source .start).await source s.fresh
  ((after.outcome? s.fresh).getD (.ok ()), after)

/-- Calls close and waits for it to return. -/
def close (source : Source κ ν σ) (timeout : Nat) (s : State κ ν σ) :
    Except CacheError Unit × State κ ν σ :=
  let after := (s.fire source (.close timeout)).await source s.fresh
  ((after.outcome? s.fresh).getD (.ok ()), after)

/-- Calls for an update of a key and waits for it to return. -/
def update (source : Source κ ν σ) (key : κ) (s : State κ ν σ) : State κ ν σ :=
  (s.fire source (.update key)).await source s.fresh

/-- Calls for an update of a key and goes on when every task waits. -/
def updateAside (source : Source κ ν σ) (key : κ) (s : State κ ν σ) : State κ ν σ :=
  (s.fire source (.update key)).settle source

/-- Looks a key up. -/
def get (source : Source κ ν σ) (key : κ) (s : State κ ν σ) : Option ν × State κ ν σ :=
  ((s.place.store.get key s.place.clock.wall).2, s.fire source (.get key))

end ItemComposition.Cache.State
