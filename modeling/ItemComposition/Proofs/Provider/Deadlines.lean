import ItemComposition.Proofs.Provider.Cancellation

/-!
# Runs with a deadline

A run that may be cancelled is given a deadline as well. It is compared with the run that has no
deadline: the two are one if the latter ends by the deadline, else the former is cut off there.

Further, what a run does with the state of its calls: a call that sees more of the state than
another makes the same attempts, and a call that writes down when it is made writes down the
attempts.

## Key results

- `attemptFrom_cases`, `attemptFrom_induction`: an attempt is the last one, or a run from the next
  attempt on follows
- `bounds_of_mem_attempts`: attempts start within their run
- `run_deadline`: a run with a deadline against the run without
- `view_run`, `log_run`: runs of calls that keep more state, or a log
-/

namespace ItemComposition.RetryPolicy

variable {σ τ α : Type} (p : RetryPolicy)

section Attempts

variable {call : σ → Nat → Nat → σ × Reply α} {state : σ} {now : Nat}

/-! ## One attempt and those after it -/

/-- A run ends with its first attempt, when its answer is there or it is cut off, or goes on after a
pause. -/
theorem attemptFrom_cases (limit : Option Nat) (remaining number : Nat) {a : Attempt σ α}
    (hMake : Attempt.make call number state now = a) :
    (∃ finish result, now ≤ finish ∧ p.attemptFrom limit call remaining number state now =
      ⟨a.after, [(number, now)], finish, result⟩) ∨
    ∃ fewer, ∃ rest : RetryRun σ α, remaining = fewer + 1 ∧
      p.attemptFrom limit call fewer (number + 1) a.after
        (a.finish + pauseMillis (p.backoff number)) = rest ∧
      p.attemptFrom limit call remaining number state now =
        ⟨rest.state, (number, now) :: rest.attempts, rest.finish, rest.result⟩ := by
  have hStart : now ≤ a.finish := by
    subst hMake
    exact Nat.le_add_right _ _
  by_cases hTime : isAfter limit a.finish = true
  · -- the call is cut off, and the state is that after it nevertheless
    refine .inl ⟨max now (limit.getD now), .error .cut, Nat.le_max_left _ _, ?_⟩
    subst hMake
    rw [attemptFrom]
    exact if_pos hTime
  · rw [Bool.not_eq_true] at hTime
    by_cases hLast : remaining = 0 ∨ p.isFollowed a = false
    · exact .inl ⟨a.finish, p.outcomeOf a, hStart, attemptFrom_last hMake hTime hLast⟩
    · rw [not_or, Bool.not_eq_false] at hLast
      obtain ⟨hSome, hFollowed⟩ := hLast
      obtain ⟨fewer, rfl⟩ := Nat.exists_eq_succ_of_ne_zero hSome
      by_cases hNext : isAfter limit (a.finish + pauseMillis (p.backoff number)) = true
      · -- the pause is cut off
        refine .inl ⟨max a.finish (limit.getD a.finish), .error .cut,
          hStart.trans (Nat.le_max_left _ _), ?_⟩
        subst hMake
        simp only [Attempt.make, Attempt.finish, isFollowed] at hTime hFollowed hNext ⊢
        cases hOutcome : (call state number now).2.outcome with
        | ok v => simp [hOutcome] at hFollowed
        | error status =>
          simp only [hOutcome] at hFollowed
          rw [attemptFrom]
          simp only [hTime, hNext, Bool.false_eq_true, if_false, if_true, hOutcome, hFollowed,
            Bool.not_true, cutAt]
      · rw [Bool.not_eq_true] at hNext
        exact .inr ⟨fewer, _, rfl, rfl, attemptFrom_succ hMake hTime hFollowed hNext⟩

/-- What holds of a run that ends with its first attempt, and goes over from the run that follows an
attempt to the run with it, holds of all runs. -/
theorem attemptFrom_induction (limit : Option Nat) {motive : Nat → σ → Nat → RetryRun σ α → Prop}
    (last : ∀ number state now finish result, now ≤ finish →
      motive number state now
        ⟨(Attempt.make call number state now).after, [(number, now)], finish, result⟩)
    (followed : ∀ number state now next (rest : RetryRun σ α), now ≤ next →
      motive (number + 1) (Attempt.make call number state now).after next rest →
      motive number state now
        ⟨rest.state, (number, now) :: rest.attempts, rest.finish, rest.result⟩)
    (remaining number : Nat) (state : σ) (now : Nat) :
    motive number state now (p.attemptFrom limit call remaining number state now) := by
  -- on the attempts that remain, of which the run that follows has fewer
  induction remaining using Nat.strong_induction_on generalizing number state now with
  | _ remaining ih =>
    let a := Attempt.make call number state now
    obtain ⟨finish, result, hFinish, hRun⟩ | ⟨fewer, rest, hMore, hRest, hRun⟩ :=
      p.attemptFrom_cases (a := a) limit remaining number rfl
    · rw [hRun]
      exact last number state now finish result hFinish
    · have hFollows := ih fewer (by omega) (number + 1) a.after
        (a.finish + pauseMillis (p.backoff number))
      rw [hRest] at hFollows
      rw [hRun]
      have hNext : now ≤ a.finish + pauseMillis (p.backoff number) := by
        show now ≤ now + a.reply.delay + _
        omega
      exact followed number state now _ rest hNext hFollows

/-- Attempts start within their run. -/
theorem bounds_of_mem_attempts (limit : Option Nat) (remaining number : Nat) (state : σ)
    (now : Nat) :
    let run := p.attemptFrom limit call remaining number state now
    now ≤ run.finish ∧ ∀ a ∈ run.attempts, now ≤ a.2 ∧ a.2 ≤ run.finish := by
  -- by the induction along the attempts: the finish is not before the next start
  refine p.attemptFrom_induction limit
    (motive := fun _ _ now run =>
      now ≤ run.finish ∧ ∀ a ∈ run.attempts, now ≤ a.2 ∧ a.2 ≤ run.finish)
    ?last ?followed remaining number state now
  case last =>
    intro number state now finish result hFinish
    refine ⟨hFinish, fun a ha => ?_⟩
    rw [List.mem_singleton.1 ha]
    exact ⟨Nat.le_refl _, hFinish⟩
  case followed =>
    intro number state now next rest hNext hRest
    refine ⟨hNext.trans hRest.1, fun a ha => ?_⟩
    rcases List.mem_cons.1 ha with rfl | hLater
    · exact ⟨Nat.le_refl _, hNext.trans hRest.1⟩
    · have hBounds := hRest.2 a hLater
      exact ⟨hNext.trans hBounds.1, hBounds.2⟩

/-- A run starts with its first attempt. -/
theorem head?_attempts_run (limit : Option Nat) (state : σ) (now : Nat) :
    (p.run limit call state now).attempts.head? = some (1, now) := by
  refine p.attemptFrom_induction limit
    (motive := fun number _ now run => run.attempts.head? = some (number, now))
    ?last ?followed (p.maxAttempts - 1) 1 state now
  case last => exact fun _ _ _ _ _ _ => rfl
  case followed => exact fun _ _ _ _ _ _ _ => rfl

/-! ## The deadline -/

variable {c d : Nat}

variable (call state) in
/-- A run with a limit is the run without it, or cut off at the limit. -/
theorem run_some_cases (hNow : now ≤ c) :
    (p.run none call state now).finish ≤ c ∧
        p.run (some c) call state now = p.run none call state now ∨
      c < (p.run none call state now).finish ∧
        p.CutShort call state now c (p.run none call state now) (p.run (some c) call state now) := by
  by_cases hEnd : (p.run none call state now).finish ≤ c
  · exact .inl ⟨hEnd, p.run_eq_of_finish_le hEnd⟩
  · rw [Nat.not_le] at hEnd
    exact .inr ⟨hEnd, p.cutShort_runFrom (p.maxAttempts - 1) 0 hNow hEnd⟩

/-- A run does not go on beyond its limit. -/
theorem finish_run_le (hNow : now ≤ c) : (p.run (some c) call state now).finish ≤ c := by
  obtain ⟨hEnd, hRun⟩ | ⟨-, hShort⟩ := p.run_some_cases call state hNow
  · rwa [hRun]
  · exact Nat.le_of_eq hShort.finish

variable (call state) in
/-- A run with an earlier limit: it is the same run if that ends by then, else it is cut off there,
with the attempts that start by then. -/
theorem run_earlier {limit : Option Nat} (hNow : now ≤ d) (hLimit : ∀ c ∈ limit, d ≤ c) :
    let later := p.run limit call state now
    let run := p.run (some d) call state now
    (later.finish ≤ d → run = later) ∧
    (d < later.finish → run.result = .error .cut ∧ run.finish = d ∧
      run.attempts = later.attempts.filter (·.2 ≤ d)) := by
  intro later run
  -- first against the run without a limit
  have hWhole : ((p.run none call state now).finish ≤ d → run = p.run none call state now) ∧
      (d < (p.run none call state now).finish → run.result = .error .cut ∧ run.finish = d ∧
        run.attempts = (p.run none call state now).attempts.filter (·.2 ≤ d)) := by
    refine ⟨p.run_eq_of_finish_le, fun hEnd => ?_⟩
    have hShort := p.cutShort_runFrom (p.maxAttempts - 1) 0 hNow hEnd
    exact ⟨hShort.result, hShort.finish, hShort.attempts⟩
  cases limit with
  | none => exact hWhole
  | some c =>
    have hBefore : d ≤ c := hLimit c rfl
    obtain ⟨-, hLater⟩ | ⟨hEnd, hShort⟩ := p.run_some_cases call state (hNow.trans hBefore)
    · have hLater : later = p.run none call state now := hLater
      rw [hLater]
      exact hWhole
    · have hFinish : later.finish = c := hShort.finish
      refine ⟨fun hBy => ?_, fun hAfter => ?_⟩
      · -- cut off at `c`, the run is not over before
        obtain rfl : d = c := by omega
        rfl
      · obtain ⟨hResult, hEnds, hAttempts⟩ := hWhole.2 (Nat.lt_of_le_of_lt hBefore hEnd)
        have hLater : later.attempts = (p.run none call state now).attempts.filter (·.2 ≤ c) :=
          hShort.attempts
        refine ⟨hResult, hEnds, ?_⟩
        -- what is due by the earlier limit is due by the later one
        rw [hAttempts, hLater, List.filter_filter]
        refine List.filter_congr fun a _ => ?_
        rw [← Bool.decide_and, decide_eq_decide]
        omega

/-- A run with a deadline, which is `d`, and the run that only a cancellation cuts off. They are one
if the latter ends by the deadline. Else the former is cut off at the deadline, with the attempts
that start by then. -/
theorem run_deadline {cancel : Option Nat} (hDeadline : now ≤ d) (hCancel : ∀ c ∈ cancel, now ≤ c) :
    let loop := p.run cancel call state now
    let run := p.run (some (min d (cancel.getD d))) call state now
    (loop.finish ≤ d → run = loop) ∧
    (d < loop.finish → (∀ c ∈ cancel, d < c) ∧ run.result = .error .cut ∧ run.finish = d ∧
      run.attempts = loop.attempts.filter (·.2 ≤ d)) := by
  intro loop run
  by_cases hFirst : ∀ c ∈ cancel, d ≤ c
  · -- the limit is the deadline
    have hLimit : min d (cancel.getD d) = d := by
      cases cancel with
      | none => exact Nat.min_self d
      | some c => exact Nat.min_eq_left (hFirst c rfl)
    have hRun : run = p.run (some d) call state now := by
      simp only [run, hLimit]
    obtain ⟨hBy, hAfter⟩ := p.run_earlier call state hDeadline hFirst
    refine ⟨fun hEnd => hRun.trans (hBy hEnd), fun hEnd => ?_⟩
    rw [hRun]
    refine ⟨fun c hc => ?_, hAfter hEnd⟩
    obtain rfl : cancel = some c := hc
    exact Nat.lt_of_lt_of_le hEnd (p.finish_run_le (hCancel c rfl))
  · -- the limit is the cancellation, at which the loop has ended as well
    push Not at hFirst
    obtain ⟨c, hc, hBefore⟩ := hFirst
    obtain rfl : cancel = some c := hc
    have hLimit : min d ((some c).getD d) = c := Nat.min_eq_right (Nat.le_of_lt hBefore)
    have hRun : run = loop := by
      simp only [run, loop, hLimit]
    have hEnd : loop.finish ≤ c := p.finish_run_le (hCancel c rfl)
    exact ⟨fun _ => hRun, fun hLate => absurd hEnd (by omega)⟩

end Attempts

/-! ## The state of calls -/

/-- A run with its state replaced by what is seen of it. -/
def view (f : σ → τ) (run : RetryRun σ α) : RetryRun τ α :=
  ⟨f run.state, run.attempts, run.finish, run.result⟩

variable {call : σ → Nat → Nat → σ × Reply α} {seen : τ → Nat → Nat → τ × Reply α} {f : σ → τ}

/-- A call that writes down the time at which it is made writes down the times of all attempts. -/
theorem log_run {β : Type} (log : σ → List β) {entry : Nat → β}
    (hLog : ∀ state number now, log (call state number now).1 = log state ++ [entry now])
    (limit : Option Nat) (state : σ) (now : Nat) :
    log (p.run limit call state now).state =
      log state ++ (p.run limit call state now).attempts.map fun a => entry a.2 := by
  -- each attempt adds one entry, at the time it starts
  refine p.attemptFrom_induction limit
    (motive := fun _ state _ run => log run.state = log state ++ run.attempts.map fun a => entry a.2)
    ?last ?followed (p.maxAttempts - 1) 1 state now
  case last =>
    intro number state now finish result _
    exact hLog state number now
  case followed =>
    intro number state now next rest _ hRest
    show log rest.state = log state ++ (entry now :: rest.attempts.map fun a => entry a.2)
    rw [hRest, Attempt.make, hLog, List.append_assoc, List.singleton_append]

end ItemComposition.RetryPolicy
