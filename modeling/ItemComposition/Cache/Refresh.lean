import ItemComposition.Cache.Store

/-!
# Refreshes, one action at a time

A refresh is what loads entries into a store. It is a tree of actions: it may wait, read the
clock, use the store through its three operations, and look at or change its surroundings (the
files it reads from, for instance). That it has no other access to the store is what keeps other
entries safe from a refresh that fails or is cut off.

A refresh can be taken one action at a time, so that what others do in between can be told, or
run to its end.

## Key results

- `Refresh.run_bind`: running one refresh after another
-/

namespace ItemComposition.Cache

/-- The two clocks of a moment, in nanoseconds: what timers are set by, and the wall clock that
entries are stamped with. -/
structure Clock where
  now : Nat
  wall : Int
  deriving Repr, DecidableEq

/-- A refresh of a store from keys `κ` to values `ν` in surroundings `σ`, with an answer `ρ`. -/
inductive Refresh (κ ν σ ρ : Type) : Type where
  | done (answer : ρ)
  | wait (duration : Nat) (next : Refresh κ ν σ ρ)
  | clock (next : Clock → Refresh κ ν σ ρ)
  | lastUpdated (key : κ) (next : Option Int → Refresh κ ν σ ρ)
  | get (key : κ) (next : Option ν → Refresh κ ν σ ρ)
  | set (key : κ) (value : ν) (stamp : Int) (next : Refresh κ ν σ ρ)
  /-- Reads the surroundings. -/
  | look (next : σ → Refresh κ ν σ ρ)
  /-- Changes the surroundings. -/
  | change (effect : σ → σ) (next : Refresh κ ν σ ρ)

/-- What a refresh works on. -/
structure Workplace (κ ν σ : Type) where
  clock : Clock
  surroundings : σ
  store : Store κ ν

namespace Refresh

variable {κ ν σ α β : Type}

/-- One refresh after another. -/
def andThen (r : Refresh κ ν σ α) (f : α → Refresh κ ν σ β) : Refresh κ ν σ β :=
  match r with
  | done a => f a
  | wait d next => wait d (next.andThen f)
  | clock next => clock (fun c => (next c).andThen f)
  | lastUpdated k next => lastUpdated k (fun t => (next t).andThen f)
  | get k next => get k (fun v => (next v).andThen f)
  | set k v t next => set k v t (next.andThen f)
  | look next => look (fun s => (next s).andThen f)
  | change effect next => change effect (next.andThen f)

instance : Monad (Refresh κ ν σ) where
  pure := done
  bind := andThen

/-- Asks for the clocks. -/
def readClock : Refresh κ ν σ Clock := clock done

/-- Asks for the stamp of a key. -/
def readStamp (key : κ) : Refresh κ ν σ (Option Int) := lastUpdated key done

/-- Looks a key up. -/
def read (key : κ) : Refresh κ ν σ (Option ν) := get key done

/-- Stores a value. -/
def write (key : κ) (value : ν) (stamp : Int) : Refresh κ ν σ Unit := set key value stamp (done ())

/-- Asks for a part of the surroundings. -/
def observe (f : σ → α) : Refresh κ ν σ α := look (fun s => done (f s))

/-- Changes the surroundings. -/
def alter (effect : σ → σ) : Refresh κ ν σ Unit := change effect (done ())

/-- Waits. -/
def pause (duration : Nat) : Refresh κ ν σ Unit := wait duration (done ())

variable [DecidableEq κ]

/-- Takes one action: what is left of the refresh, and the workplace after it. A pause is over at
once; who takes the actions decides when the next one follows. -/
def step (r : Refresh κ ν σ α) (w : Workplace κ ν σ) : Refresh κ ν σ α × Workplace κ ν σ :=
  match r with
  | done a => (done a, w)
  | wait _ next => (next, w)
  | clock next => (next w.clock, w)
  | lastUpdated k next => (next (w.store.lastUpdated? k), w)
  | get k next =>
    let (store, v) := w.store.get k w.clock.wall
    (next v, { w with store })
  | set k v t next => (next, { w with store := w.store.set k v t })
  | look next => (next w.surroundings, w)
  | change effect next => (next, { w with surroundings := effect w.surroundings })

/-- Takes every action to the end, and passes over pauses. -/
def run (r : Refresh κ ν σ α) (w : Workplace κ ν σ) : α × Workplace κ ν σ :=
  match r with
  | done a => (a, w)
  | wait _ next => next.run w
  | clock next => (next w.clock).run w
  | lastUpdated k next => (next (w.store.lastUpdated? k)).run w
  | get k next => (next (w.store.get k w.clock.wall).2).run
      { w with store := (w.store.get k w.clock.wall).1 }
  | set k v t next => next.run { w with store := w.store.set k v t }
  | look next => (next w.surroundings).run w
  | change effect next => next.run { w with surroundings := effect w.surroundings }

/-- Takes the actions up to the next pause, or to the end. -/
def proceed (r : Refresh κ ν σ α) (w : Workplace κ ν σ) : Refresh κ ν σ α × Workplace κ ν σ :=
  match r with
  | done a => (done a, w)
  | wait d next => (wait d next, w)
  | clock next => (next w.clock).proceed w
  | lastUpdated k next => (next (w.store.lastUpdated? k)).proceed w
  | get k next => (next (w.store.get k w.clock.wall).2).proceed
      { w with store := (w.store.get k w.clock.wall).1 }
  | set k v t next => next.proceed { w with store := w.store.set k v t }
  | look next => (next w.surroundings).proceed w
  | change effect next => next.proceed { w with surroundings := effect w.surroundings }

omit [DecidableEq κ] in
theorem bind_eq_andThen (r : Refresh κ ν σ α) (f : α → Refresh κ ν σ β) :
    r >>= f = r.andThen f := rfl

/-- The second of two refreshes starts where the first one ends. -/
theorem run_bind (r : Refresh κ ν σ α) (f : α → Refresh κ ν σ β) (w : Workplace κ ν σ) :
    (r >>= f).run w = (f (r.run w).1).run (r.run w).2 := by
  rw [bind_eq_andThen]
  induction r generalizing w with
  | done a => rfl
  | wait d next ih => exact ih w
  | clock next ih => exact ih _ w
  | lastUpdated k next ih => exact ih _ w
  | get k next ih => exact ih _ _
  | set k v t next ih => exact ih _
  | look next ih => exact ih _ w
  | change effect next ih => exact ih _

/-- An action does not change how a refresh ends. -/
theorem run_step (r : Refresh κ ν σ α) (w : Workplace κ ν σ) :
    (r.step w).1.run (r.step w).2 = r.run w := by
  cases r <;> rfl

end Refresh

/-- Where a cache gets its entries from: a refresh of everything, and one of a single key. A
failure carries its text with its causes. -/
structure Source (κ ν σ : Type) where
  full : Refresh κ ν σ (Except String Unit)
  single : κ → Refresh κ ν σ (Except String Unit)

end ItemComposition.Cache
