import ItemComposition.Binary64
import ItemComposition.Provider.Status
import ItemComposition.Time.Unit
import ItemComposition.Word

/-!
# Retrying calls

`RetryPolicy.run` repeats a call until it succeeds, fails for good, or the attempts are used up.
Time is counted in whole milliseconds; a pause takes its length rounded up. A run may be cut off at
a given moment: what happens up to that moment counts, what would happen after it does not.
-/

namespace ItemComposition

/-- How often and when a call is repeated. -/
structure RetryPolicy where
  /-- Attempts in all; at least one is made. -/
  maxAttempts : Nat
  /-- Nanoseconds before the second attempt. -/
  initialBackoff : Nat
  /-- The longest pause in nanoseconds. -/
  maxBackoff : Nat
  /-- The growth of the pause from one attempt to the next. -/
  multiplier : Float
  /-- The codes after which a call is repeated. -/
  retryableCodes : List StatusCode

namespace RetryPolicy

/-- Three attempts, one and two seconds apart, when a service is not there, late or short of
resources. -/
def standard : RetryPolicy where
  maxAttempts := 3
  initialBackoff := TimeUnit.second.nanos
  maxBackoff := 10 * TimeUnit.second.nanos
  multiplier := 2
  retryableCodes := [.unavailable, .deadlineExceeded, .resourceExhausted]

/-- A duration in seconds as a double. -/
def seconds (nanos : Nat) : Float :=
  Binary64.ofInt (nanos / TimeUnit.second.nanos : Nat) + Binary64.ofInt (nanos % TimeUnit.second.nanos : Nat) / 1e9

/-- A whole number of seconds and fractions of it as nanoseconds, halves to the even neighbour. -/
def roundToNanos (m : Nat) (e : Int) : Nat :=
  match e with
  | .ofNat e => (m <<< e) * TimeUnit.second.nanos
  | .negSucc e =>
    let scaled := m * TimeUnit.second.nanos
    let unit := Nat.pow 2 (e + 1)
    let low := scaled / unit
    let rest := 2 * (scaled % unit)
    if unit < rest || (rest = unit && low % 2 = 1) then low + 1 else low

/-- A double in seconds as nanoseconds; none below zero, from `2 ^ 64` seconds on, and for
not-a-number. -/
def nanosOfSeconds? (x : Float) : Option Nat :=
  match Binary64.parts x with
  | .finite negative m e =>
    if negative && m ≠ 0 then none
    else
      let n := roundToNanos m e
      if n < Word.size 64 * TimeUnit.second.nanos then some n else none
  | _ => none

/-- The exponents that the growth of pauses is computed for. -/
def maxExponent : Nat := Word.size 31 - 1

/-- The pause after an attempt in nanoseconds. The pause grows by the multiplier from attempt to
attempt, up to the longest; one that is no duration counts as the longest. -/
def backoff (p : RetryPolicy) (attempt : Nat) : Nat :=
  let scaled := seconds p.initialBackoff * Binary64.power p.multiplier (min (attempt - 1) maxExponent)
  min ((nanosOfSeconds? scaled).getD p.maxBackoff) p.maxBackoff

/-- Whether a call that ended with a code is repeated. -/
def isRetryable (p : RetryPolicy) (code : StatusCode) : Bool := p.retryableCodes.contains code

/-- Whole milliseconds that a pause takes. -/
def pauseMillis (nanos : Nat) : Nat := (nanos + (TimeUnit.millisecond.nanos - 1)) / TimeUnit.millisecond.nanos

end RetryPolicy

/-- The answer of a call and the milliseconds that it took. -/
structure Reply (α : Type) where
  delay : Nat
  outcome : Except Status α

/-- How a run ended without success. -/
inductive RetryStop where
  /-- The last call ended with a code after which it is not repeated. -/
  | terminal (status : Status)
  /-- The last attempt failed. -/
  | exhausted (attempts : Nat) (status : Status)
  /-- The run was cut off. -/
  | cut

/-- A run: what the calls left behind, the attempts with their times, and when and how it ended. -/
structure RetryRun (σ α : Type) where
  state : σ
  attempts : List (Nat × Nat)
  finish : Nat
  result : Except RetryStop α

namespace RetryPolicy

variable {σ α : Type}

/-- Whether a moment lies after the moment at which a run is cut off. -/
def isAfter (limit : Option Nat) (time : Nat) : Bool :=
  match limit with
  | some l => l < time
  | none => false

/-- The run that is cut off. -/
def cutAt (limit : Option Nat) (now : Nat) (state : σ) (attempts : List (Nat × Nat)) :
    RetryRun σ α :=
  ⟨state, attempts, max now (limit.getD now), .error .cut⟩

/-- The attempt of a given number at a given time, and those after it. `remaining` attempts may
follow. -/
def attemptFrom (p : RetryPolicy) (limit : Option Nat) (call : σ → Nat → Nat → σ × Reply α)
    (remaining attempt : Nat) (state : σ) (now : Nat) : RetryRun σ α :=
  let (state, reply) := call state attempt now
  let done := now + reply.delay
  let made := [(attempt, now)]
  -- an answer that comes after the limit is not seen
  if isAfter limit done then cutAt limit now state made
  else
    match reply.outcome with
    | .ok v => ⟨state, made, done, .ok v⟩
    | .error status =>
      if !p.isRetryable status.code then ⟨state, made, done, .error (.terminal status)⟩
      else
        match remaining with
        | 0 => ⟨state, made, done, .error (.exhausted attempt status)⟩
        | remaining + 1 =>
          let next := done + pauseMillis (p.backoff attempt)
          -- the pause alone can run past the limit
          if isAfter limit next then cutAt limit done state made
          else
            let rest := attemptFrom p limit call remaining (attempt + 1) state next
            { rest with attempts := made ++ rest.attempts }

/-- Runs a call from a given time on. `call` takes the state, the number of the attempt and the
time. -/
def run (p : RetryPolicy) (limit : Option Nat) (call : σ → Nat → Nat → σ × Reply α)
    (state : σ) (now : Nat) : RetryRun σ α :=
  attemptFrom p limit call (p.maxAttempts - 1) 1 state now

/-- A run that is cancelled before it starts: the first attempt is prepared but makes no call. -/
def cancelledRun (state : σ) (now : Nat) : RetryRun σ α :=
  ⟨state, [(1, now)], now, .error .cut⟩

/-- Runs a call from a given time on until it is cancelled, if it is. -/
def execute (p : RetryPolicy) (cancel : Option Nat) (call : σ → Nat → Nat → σ × Reply α)
    (state : σ) (now : Nat) : RetryRun σ α :=
  match cancel with
  | some c => if c ≤ now then cancelledRun state now else p.run (some c) call state now
  | none => p.run none call state now

end RetryPolicy

end ItemComposition
