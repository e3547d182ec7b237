import ItemComposition.Provider.Call
import Mathlib.Data.List.Range

/-!
# What a run of attempts does

The attempts of a run are a sequence that goes on for ever when every call fails with a code after
which it is repeated (`RetryPolicy.attempt`). A run makes the attempts of this sequence in turn, up
to the first that is not followed by another, and at most as many as the policy allows.

## Key results

- `backoff_le_start_attempt`: the pause before an attempt is not shorter than the policy says
- `attemptFrom_eq`: a run from any attempt on
- `run_eq_attempts`: a whole run, with its error
- `run_eq_of_finish_le`: a limit that a run does not reach changes nothing
-/

namespace ItemComposition

variable {σ α : Type}

/-- An attempt: the state and the time it starts with, the state it leaves behind, and its
answer. -/
structure Attempt (σ α : Type) where
  number : Nat
  before : σ
  start : Nat
  after : σ
  reply : Reply α

namespace Attempt

/-- Makes a call. -/
def make (call : σ → Nat → Nat → σ × Reply α) (number : Nat) (before : σ) (start : Nat) :
    Attempt σ α :=
  ⟨number, before, start, (call before number start).1, (call before number start).2⟩

/-- The time at which the answer is there. -/
def finish (a : Attempt σ α) : Nat := a.start + a.reply.delay

end Attempt

namespace RetryPolicy

variable (p : RetryPolicy) (call : σ → Nat → Nat → σ × Reply α) (state : σ) (now : Nat)

/-- The attempts of a run, numbered from one on, as long as each is followed by another. -/
def attempt : Nat → Attempt σ α
  | 0 => .make call 1 state now
  | n + 1 =>
    let last := attempt n
    .make call (n + 2) last.after (last.finish + pauseMillis (p.backoff (n + 1)))

/-- Whether an attempt may be followed by another. -/
def isFollowed (a : Attempt σ α) : Bool :=
  match a.reply.outcome with
  | .ok _ => false
  | .error status => p.isRetryable status.code

/-- What a run ends with when an attempt is its last. -/
def outcomeOf (a : Attempt σ α) : Except RetryStop α :=
  match a.reply.outcome with
  | .ok v => .ok v
  | .error status =>
    if p.isRetryable status.code then .error (.exhausted a.number status)
    else .error (.terminal status)

/-! ## The sequence of attempts -/

theorem number_attempt (n : Nat) : (p.attempt call state now n).number = n + 1 := by
  cases n <;> rfl

/-- Rounded up to whole milliseconds, a pause gets no shorter. -/
theorem le_pauseMillis (nanos : Nat) :
    nanos ≤ pauseMillis nanos * TimeUnit.millisecond.nanos := by
  simp only [pauseMillis, TimeUnit.nanos]
  omega

/-- The next attempt starts when the pause after this one is over. -/
theorem backoff_le_start_attempt (n : Nat) :
    (p.attempt call state now n).finish * TimeUnit.millisecond.nanos + p.backoff (n + 1) ≤
      (p.attempt call state now (n + 1)).start * TimeUnit.millisecond.nanos := by
  have hPause := le_pauseMillis (p.backoff (n + 1))
  have hStart : (p.attempt call state now (n + 1)).start =
      (p.attempt call state now n).finish + pauseMillis (p.backoff (n + 1)) := rfl
  rw [hStart, Nat.add_mul]
  omega

/-! ## Runs -/

section Step

variable {p call state now}
variable {limit : Option Nat} {remaining number : Nat} {a : Attempt σ α}
variable (hMake : Attempt.make call number state now = a) (hTime : isAfter limit a.finish = false)
include hMake hTime

/-- A run ends with an attempt that no other follows. -/
theorem attemptFrom_last (hLast : remaining = 0 ∨ p.isFollowed a = false) :
    p.attemptFrom limit call remaining number state now =
      ⟨a.after, [(number, now)], a.finish, p.outcomeOf a⟩ := by
  subst hMake
  simp only [Attempt.make, Attempt.finish, isFollowed, outcomeOf] at hTime hLast ⊢
  rw [attemptFrom]
  simp only [hTime, Bool.false_eq_true, if_false]
  -- an answer ends the run, and so does an error that is not tried again
  cases hOutcome : (call state number now).2.outcome with
  | ok v => rfl
  | error status =>
    cases hCode : p.isRetryable status.code with
    | false => simp [hCode]
    | true =>
      rw [hOutcome] at hLast
      obtain rfl : remaining = 0 := hLast.resolve_right (by simp [hCode])
      simp [hCode]

/-- Else a pause and the next attempt come after it. -/
theorem attemptFrom_succ (hFollowed : p.isFollowed a = true)
    (hNext : isAfter limit (a.finish + pauseMillis (p.backoff number)) = false) :
    p.attemptFrom limit call (remaining + 1) number state now =
      { p.attemptFrom limit call remaining (number + 1) a.after
          (a.finish + pauseMillis (p.backoff number)) with
        attempts := (number, now) :: (p.attemptFrom limit call remaining (number + 1) a.after
          (a.finish + pauseMillis (p.backoff number))).attempts } := by
  subst hMake
  simp only [Attempt.make, Attempt.finish, isFollowed] at hTime hFollowed hNext
  -- only an error is followed
  cases hOutcome : (call state number now).2.outcome with
  | ok v => simp [hOutcome] at hFollowed
  | error status =>
    simp only [hOutcome] at hFollowed
    rw [attemptFrom]
    simp only [hTime, hNext, Bool.false_eq_true, if_false, hOutcome, hFollowed, Bool.not_true]
    rfl

end Step

/-- A run from an attempt on makes attempts up to the first that is not followed by another, and
at most as many as remain. -/
theorem attemptFrom_eq (remaining n : Nat) :
    ∃ m ≤ remaining, (∀ j < m, p.isFollowed (p.attempt call state now (n + j)) = true) ∧
      (m < remaining → p.isFollowed (p.attempt call state now (n + m)) = false) ∧
      p.attemptFrom none call remaining (n + 1) (p.attempt call state now n).before
          (p.attempt call state now n).start =
        ⟨(p.attempt call state now (n + m)).after,
          (List.range' n (m + 1)).map fun j => (j + 1, (p.attempt call state now j).start),
          (p.attempt call state now (n + m)).finish,
          p.outcomeOf (p.attempt call state now (n + m))⟩ := by
  have hMake (n : Nat) : Attempt.make call (n + 1) (p.attempt call state now n).before
      (p.attempt call state now n).start = p.attempt call state now n := by
    cases n <;> rfl
  -- by induction on the attempts that remain; the run goes on from the next attempt
  induction remaining generalizing n with
  | zero => exact ⟨0, Nat.le_refl _, nofun, nofun, attemptFrom_last (hMake n) rfl (.inl rfl)⟩
  | succ remaining ih =>
    cases hFirst : p.isFollowed (p.attempt call state now n) with
    | false =>
      exact ⟨0, Nat.zero_le _, nofun, fun _ => hFirst,
        attemptFrom_last (hMake n) rfl (.inr hFirst)⟩
    | true =>
      obtain ⟨m, hm, hFollowed, hLast, hRest⟩ := ih (n + 1)
      have hPlace (j : Nat) : n + 1 + j = n + (j + 1) := by omega
      simp only [hPlace] at hFollowed hLast hRest
      refine ⟨m + 1, Nat.succ_le_succ hm, ?_, fun h => hLast (Nat.lt_of_succ_lt_succ h), ?_⟩
      · intro j hj
        cases j with
        | zero => exact hFirst
        | succ j => exact hFollowed j (Nat.lt_of_succ_lt_succ hj)
      · have hNext : p.attemptFrom none call remaining (n + 1 + 1)
            (p.attempt call state now n).after
            ((p.attempt call state now n).finish + pauseMillis (p.backoff (n + 1))) = _ := hRest
        rw [attemptFrom_succ (hMake n) rfl hFirst rfl, hNext]
        rfl

/-- A run without a limit makes the attempts with the numbers from one on, up to the first that
succeeds or fails for good, and at most as many as the policy allows; its value or error is that of
the last attempt, and it ends when that attempt does. No attempt starts before the pause after the
one before it is over, and the numbers of attempts fit in the word that holds their bound. -/
theorem run_eq_attempts (name : String) (timeout : Nat) (t : CallTime) :
    let N := max 1 p.maxAttempts
    let attempt := p.attempt call state now
    let run := p.run none call state now
    ∃ k < N, (∀ j < k, p.isFollowed (attempt j) = true) ∧
      (k + 1 < N → p.isFollowed (attempt k) = false) ∧
      run.attempts = (List.range (k + 1)).map (fun j => (j + 1, (attempt j).start)) ∧
      run.state = (attempt k).after ∧ run.finish = (attempt k).finish ∧
      run.result.mapError (Provider.stopError name timeout t) =
        (match (attempt k).reply.outcome with
        | .ok v => .ok v
        | .error status =>
          if p.isRetryable status.code then .error (.retriesExhausted N status)
          else .error (.call status)) ∧
      (∀ j < k, (attempt j).finish * TimeUnit.millisecond.nanos + p.backoff (j + 1) ≤
        (attempt (j + 1)).start * TimeUnit.millisecond.nanos) ∧
      (p.maxAttempts < Word.size 32 → ∀ a ∈ run.attempts, a.1 < Word.size 32) := by
  intro N attempt run
  obtain ⟨k, hk, hFollowed, hLast, hRun⟩ :=
    p.attemptFrom_eq call state now (p.maxAttempts - 1) 0
  simp only [Nat.zero_add] at hFollowed hLast hRun
  have hRun : run = _ := hRun
  have hN : k < N := by
    simp only [N]
    omega
  have hEnds : k + 1 < N → p.isFollowed (attempt k) = false := by
    intro h
    refine hLast ?_
    simp only [N] at h
    omega
  have hAttempts : run.attempts = (List.range (k + 1)).map fun j => (j + 1, (attempt j).start) := by
    rw [hRun, List.range_eq_range']
  refine ⟨k, hN, hFollowed, hEnds, hAttempts, by rw [hRun], by rw [hRun], ?_, ?_, ?_⟩
  · rw [hRun]
    simp only [outcomeOf]
    cases hOutcome : (attempt k).reply.outcome with
    | ok v => rfl
    | error status =>
      by_cases hCode : p.isRetryable status.code = true
      · -- an attempt that might be followed is the last one allowed
        have hNumber : N = k + 1 := by
          by_contra hMore
          have hStops := hEnds (by omega)
          simp [isFollowed, hOutcome, hCode] at hStops
        simp only [if_pos hCode, hNumber, number_attempt]
        rfl
      · simp only [if_neg hCode]
        rfl
  · exact fun j _ => p.backoff_le_start_attempt call state now j
  · intro hWord a ha
    rw [hAttempts, List.mem_map] at ha
    obtain ⟨j, hj, rfl⟩ := ha
    rw [List.mem_range] at hj
    have hOne : 1 < Word.size 32 := by decide
    simp only [N] at hN
    omega

/-- The third of three attempts that a policy allows, when none succeeds. -/
theorem run_eq_attempts_exhausted :
    let p : RetryPolicy := { RetryPolicy.standard with maxBackoff := 5 }
    let call : Unit → Nat → Nat → Unit × Reply Nat := fun _ number _ =>
      ((), ⟨10, .error ⟨.unavailable, Decimal.intText number⟩⟩)
    let run := p.run none call () 0
    p.maxAttempts < Word.size 32 ∧ run.attempts.map (·.1) = [1, 2, 3] ∧
      (∀ a ∈ run.attempts, a.1 < Word.size 32) ∧
      run.result.mapError (Provider.stopError "m" 0 ⟨0, none, 0⟩) =
        .error (.retriesExhausted 3 ⟨.unavailable, "3"⟩) := by
  intro p call run
  have hWord : p.maxAttempts < Word.size 32 := by decide
  obtain ⟨k, hk, hFollowed, hLast, hAttempts, -, -, hResult, -, hNumbers⟩ :=
    run_eq_attempts p call () 0 "m" 0 ⟨0, none, 0⟩
  -- every attempt is answered by a code that is tried again
  have hAll (n : Nat) : p.isFollowed (p.attempt call () 0 n) = true := by
    cases n <;> rfl
  have hLt : k < 3 := hk
  have hThird : k = 2 := by
    by_contra hNot
    have hMore : k + 1 < 3 := by omega
    have hEnds := hLast hMore
    rw [hAll] at hEnds
    cases hEnds
  subst hThird
  refine ⟨hWord, ?_, hNumbers hWord, ?_⟩
  · rw [hAttempts, List.map_map]
    rfl
  · rw [hResult]
    rfl

/-! ## Limits -/

variable {call state now}

/-- A run does not end before its first answer is there. -/
theorem finish_le_finish_attemptFrom (remaining : Nat) {number : Nat} {a : Attempt σ α}
    (hMake : Attempt.make call number state now = a) :
    a.finish ≤ (p.attemptFrom none call remaining number state now).finish := by
  induction remaining generalizing number state now a with
  | zero => rw [attemptFrom_last hMake rfl (.inl rfl)]
  | succ remaining ih =>
    cases hFollowed : p.isFollowed a with
    | false => rw [attemptFrom_last hMake rfl (.inr hFollowed)]
    | true =>
      rw [attemptFrom_succ hMake rfl hFollowed rfl]
      refine Nat.le_trans ?_ (ih rfl)
      simp only [Attempt.make, Attempt.finish]
      omega

theorem isAfter_some_eq_false {limit time : Nat} (h : time ≤ limit) :
    isAfter (some limit) time = false := by
  simp only [isAfter, decide_eq_false_iff_not]
  omega

theorem attemptFrom_eq_of_finish_le {limit remaining number : Nat}
    (h : (p.attemptFrom none call remaining number state now).finish ≤ limit) :
    p.attemptFrom (some limit) call remaining number state now =
      p.attemptFrom none call remaining number state now := by
  have hTime : isAfter (some limit) (Attempt.make call number state now).finish = false :=
    isAfter_some_eq_false ((p.finish_le_finish_attemptFrom remaining rfl).trans h)
  induction remaining generalizing number state now with
  | zero => rw [attemptFrom_last rfl hTime (.inl rfl), attemptFrom_last rfl rfl (.inl rfl)]
  | succ remaining ih =>
    cases hFollowed : p.isFollowed (Attempt.make call number state now) with
    | false =>
      rw [attemptFrom_last rfl hTime (.inr hFollowed), attemptFrom_last rfl rfl (.inr hFollowed)]
    | true =>
      rw [attemptFrom_succ rfl rfl hFollowed rfl] at h
      -- the pause and the attempt after it lie before the end of the run
      have hRest := (p.finish_le_finish_attemptFrom remaining rfl).trans h
      have hPause := isAfter_some_eq_false ((Nat.le_add_right _ _).trans hRest)
      rw [attemptFrom_succ rfl hTime hFollowed hPause, ih h (isAfter_some_eq_false hRest),
        attemptFrom_succ rfl rfl hFollowed rfl]

/-- A limit that a run does not reach changes nothing. -/
theorem run_eq_of_finish_le {limit : Nat} (h : (p.run none call state now).finish ≤ limit) :
    p.run (some limit) call state now = p.run none call state now :=
  p.attemptFrom_eq_of_finish_le h

end RetryPolicy

end ItemComposition
