import ItemComposition.Proofs.Cache.RunningLoops

/-!
# What it tells that a cache does not run

Callers that wait for each call before they make the next one have at most one call in progress
(`Alone`), so no start succeeds while the cache runs. For them, a loop that is alive while the cache
counts as not running was told to stop, and either a call to close waits for it or one gave up on it.
Such a loop ends the refresh that it is in, or that it is in line for, and it makes no other one.

So the flag tells the truth between calls as long as no call to close gives up, and no longer: close
takes the handle before it waits, and does not put it back when the time is over.

## Key results

- `Awaited.alone`: one call at a time
- `waiting_of_run`: a loop that does not tick is in line for one refresh at most
- `running_of_awaited`: what holds while the cache does not run
- `not_running_of_awaited`: a loop that refreshes while the cache does not run
-/

namespace ItemComposition.Cache

variable {κ ν σ : Type}

/-- Whether an event is a call to start, to update or to close. -/
def Event.isCall : Event κ → Bool
  | .start | .update _ | .close _ => true
  | _ => false

namespace Outline

variable {o o' : Outline} {name : String} {id : Nat}

/-! ## Calls in progress -/

/-- A call has not returned yet. -/
def InProgress (o : Outline) (id : Nat) : Prop :=
  (∃ d, (id, d) ∈ o.parts ∧ ∀ b, d ≠ .loop b) ∨ ∃ loop, (id, loop) ∈ o.closings

/-- A call is in progress that was in progress before, or has just come in. -/
theorem inProgress_of_move {e : Event κ} (hMove : Moves name o e o') (h : o'.InProgress id) :
    o.InProgress id ∨ e.isCall = true ∧ id = o.fresh := by
  -- a close changes the duty of a loop only, and a loop is no call in progress
  have hStopped : ∀ d, (id, d) ∈ o.stopTarget.parts → (∀ b, d ≠ .loop b) → o.InProgress id := by
    intro d hMem hCall
    obtain ⟨d', hMem', rfl⟩ := mem_stopTarget.1 hMem
    refine .inl ⟨d', hMem', ?_⟩
    rintro b rfl
    split at hCall
    · exact hCall true rfl
    · exact hCall b rfl
  -- a part is added by three events: a call joins under the next number, a close that waits does,
  -- and a start launches its loop, which is no call
  cases hMove with
  | refused | rest => exact .inl h
  | called | updating =>
    rcases h with ⟨d, hMem, hCall⟩ | hWaits
    · rcases mem_join.1 hMem with hMem | ⟨hId, -⟩
      · exact .inl (.inl ⟨d, hMem, hCall⟩)
      · exact .inr ⟨rfl, hId⟩
    · exact .inl (.inr hWaits)
  | closedAtOnce =>
    rcases h with ⟨d, hMem, hCall⟩ | hWaits
    · exact .inl (hStopped d hMem hCall)
    · exact .inl (.inr hWaits)
  | closing =>
    rcases h with ⟨d, hMem, hCall⟩ | ⟨loop, hWaits⟩
    · exact .inl (hStopped d hMem hCall)
    · rcases List.mem_append.1 hWaits with hWaits | hNew
      · exact .inl (.inr ⟨loop, hWaits⟩)
      · exact .inr ⟨rfl, (Prod.mk.inj (List.mem_singleton.1 hNew)).1⟩
  | updated | failed | left =>
    rcases h with ⟨d, hMem, hCall⟩ | hWaits
    · exact .inl (.inl ⟨d, (mem_drop.1 hMem).1, hCall⟩)
    · exact .inl (.inr hWaits)
  | launched =>
    rcases h with ⟨d, hMem, hCall⟩ | hWaits
    · rcases mem_join.1 hMem with hMem | ⟨-, rfl⟩
      · exact .inl (.inl ⟨d, (mem_drop.1 hMem).1, hCall⟩)
      · exact absurd rfl (hCall false)
    · exact .inl (.inr hWaits)
  | closed | gaveUp =>
    rcases h with hPart | ⟨loop, hWaits⟩
    · exact .inl (.inl hPart)
    · exact .inl (.inr ⟨loop, (List.mem_filter.1 hWaits).1⟩)

/-- At most one call is in progress, and there is no handle while a call to close waits. -/
structure Alone (o : Outline) : Prop where
  unique : ∀ i j, o.InProgress i → o.InProgress j → i = j
  free : ∀ c ∈ o.closings, o.worker = none

theorem Sound.not_mem_parts (h : o.Sound) {loop : Nat} (waits : (id, loop) ∈ o.closings)
    (d : Duty) : (id, d) ∉ o.parts := by
  intro hMem
  have hApart := (List.nodup_append.1 h.nodup).2.2
  have hClosing : id ∈ o.closings.map Prod.fst ++ o.returned.map Prod.fst :=
    List.mem_append_left _ (List.mem_map_of_mem waits)
  exact hApart _ (List.mem_map_of_mem hMem) _ hClosing rfl

theorem Alone.move {e : Event κ} (h : o.Alone) (hSound : o.Sound) (hMove : Moves name o e o')
    (hCall : e.isCall = true → ∀ i, ¬o.InProgress i) : o'.Alone := by
  constructor
  · intro i j hi hj
    rcases inProgress_of_move hMove hi with hi | ⟨hNew, hi⟩ <;>
      rcases inProgress_of_move hMove hj with hj | ⟨hNew', hj⟩
    · exact h.unique i j hi hj
    · exact absurd hi (hCall hNew' i)
    · exact absurd hj (hCall hNew j)
    · exact hi.trans hj.symm
  · cases hMove with
    | refused | called | updating | rest | updated | failed | left => exact h.free
    | closedAtOnce timeout free => exact fun _ _ => free
    | closing => exact fun _ _ => rfl
    | @launched j inProgress =>
      -- nobody waits while a start is in progress
      rintro ⟨k, loop⟩ hc
      have hSame : j = k := h.unique j k (.inl ⟨_, inProgress, by simp⟩) (.inr ⟨loop, hc⟩)
      exact absurd (hSame ▸ inProgress) (hSound.not_mem_parts hc _)
    | closed | gaveUp => exact fun c hc => h.free c (List.mem_filter.1 hc).1

/-! ## Until the next start -/

/-- Without a start in progress, no loop comes up until the next start. -/
theorem Quiet.loop_of_move {k : Nat} {e : Event κ} (h : Quiet k o) (hMove : Moves name o e o')
    (notStart : e ≠ .start) {b : Bool} (hLoop : (id, Duty.loop b) ∈ o'.parts) :
    ∃ b', (id, Duty.loop b') ∈ o.parts := by
  cases hMove with
  | refused | called => exact absurd rfl notStart
  | updating =>
    rcases mem_join.1 hLoop with hLoop | ⟨-, hDuty⟩
    · exact ⟨b, hLoop⟩
    · cases hDuty
  | closedAtOnce | closing => exact loop_of_stopTarget hLoop
  | rest | closed | gaveUp => exact ⟨b, hLoop⟩
  | updated | left => exact ⟨b, (mem_drop.1 hLoop).1⟩
  | failed inProgress | launched inProgress => exact absurd inProgress (h.starting _)

end Outline

/-- Numbers are handed out in ascending order. -/
theorem Moves.fresh_le {name : String} {o o' : Outline} {e : Event κ} (h : Moves name o e o') :
    o.fresh ≤ o'.fresh := by
  cases h with
  | rest | updated | failed | left | closed | gaveUp => exact Nat.le_refl _
  | refused | called | updating | closedAtOnce | closing | launched => exact Nat.le_succ _

namespace State

variable {s s' m n first : State κ ν σ} {id : Nat}

/-- A loop is in the outline of a state. -/
theorem loop_mem_parts_iff :
    (∃ b, (id, Duty.loop b) ∈ s.outline.parts) ↔ ∃ t ∈ s.tasks, t.id = id ∧ t.role.isLoop = true := by
  simp only [outline, List.mem_map, Prod.mk.injEq]
  constructor
  · rintro ⟨b, t, ht, hId, hDuty⟩
    refine ⟨t, ht, hId, ?_⟩
    cases hRole : t.role <;> simp_all [Role.duty, Role.isLoop]
  · rintro ⟨t, ht, hId, hLoop⟩
    cases hRole : t.role with
    | start | update => simp [hRole, Role.isLoop] at hLoop
    | loop nextTick stopped => exact ⟨stopped, t, ht, hId, by rw [hRole]; rfl⟩

/-- No call is in progress. -/
def Resting (s : State κ ν σ) : Prop := (∀ t ∈ s.tasks, t.role.isLoop = true) ∧ s.closings = []

instance (s : State κ ν σ) : Decidable s.Resting :=
  inferInstanceAs (Decidable ((∀ t ∈ s.tasks, t.role.isLoop = true) ∧ s.closings = []))

theorem Resting.not_inProgress (h : s.Resting) (id : Nat) : ¬s.outline.InProgress id := by
  rintro (⟨d, hMem, hCall⟩ | ⟨loop, hWaits⟩)
  · obtain ⟨t, ht, hPart⟩ := List.mem_map.1 hMem
    have hLoop := h.1 t ht
    cases hRole : t.role with
    | start | update => simp [hRole, Role.isLoop] at hLoop
    | loop nextTick stopped =>
      rw [hRole] at hPart
      exact hCall stopped (Prod.mk.inj hPart).2.symm
  · rw [outline, h.2] at hWaits
    cases hWaits

variable [DecidableEq κ] {source : Source κ ν σ}

/-- A call comes in only when the one before has returned. -/
def Awaited (source : Source κ ν σ) (s : State κ ν σ) : List (Event κ) → Prop
  | [] => True
  | e :: rest =>
    (e.isCall = true → s.Resting) ∧
      ∀ next, s.step source e = some next → Awaited source next rest

instance decidableAwaited (source : Source κ ν σ) (s : State κ ν σ) :
    (events : List (Event κ)) → Decidable (Awaited source s events)
  | [] => .isTrue trivial
  | e :: rest =>
    match hStep : s.step source e with
    | none => decidable_of_iff (e.isCall = true → s.Resting) (by simp [Awaited, hStep])
    | some next =>
      have := decidableAwaited source next rest
      decidable_of_iff ((e.isCall = true → s.Resting) ∧ Awaited source next rest)
        (by simp [Awaited, hStep])

theorem Awaited.append {before after : List (Event κ)} (h : Awaited source s (before ++ after))
    (hRun : s.run source before = some m) : Awaited source s before ∧ Awaited source m after := by
  induction before generalizing s with
  | nil =>
    obtain rfl := Option.some.inj hRun
    exact ⟨trivial, h⟩
  | cons e before ih =>
    rw [State.run, Option.bind_eq_some_iff] at hRun
    obtain ⟨next, hStep, hRest⟩ := hRun
    refine ⟨⟨h.1, fun next' hStep' => ?_⟩, (ih (h.2 next hStep) hRest).2⟩
    obtain rfl := Option.some.inj (hStep.symm.trans hStep')
    exact (ih (h.2 next hStep) hRest).1

theorem Awaited.alone {events : List (Event κ)} (h : Awaited source m events) (hFit : Fit m)
    (alone : m.outline.Alone) (hRun : m.run source events = some n) : n.outline.Alone := by
  induction events generalizing m with
  | nil => exact Option.some.inj hRun ▸ alone
  | cons e rest ih =>
    rw [State.run, Option.bind_eq_some_iff] at hRun
    obtain ⟨next, hStep, hRest⟩ := hRun
    have hNext := alone.move hFit.sound (moves_of_step hFit.orderly hStep) fun hCall =>
      (h.1 hCall).not_inProgress
    exact ih (h.2 next hStep) (hFit.step hStep) hNext hRest

/-- If each call is waited for, no start succeeds that was in progress when another one did. -/
theorem Awaited.not_doubles {events : List (Event κ)} (h : Awaited source first events)
    (hFit : Fit first) (alone : first.outline.Alone) : ¬Doubles source first events := by
  rintro ⟨i, j, between, m, n, ⟨before, after, p, q, rfl, hP, hM, hSucceeds, -⟩, hStarting, -⟩
  have hAlone := (h.append hP).1.alone hFit alone hP
  have hOther := starting_iff.1 hStarting
  rw [(hFit.of_run hP).launch_of_succeeds hM hSucceeds] at hOther
  rcases Outline.mem_join.1 hOther with hOther | ⟨-, hDuty⟩
  · obtain ⟨hMem, hne⟩ := Outline.mem_drop.1 hOther
    have hFirst := starting_iff.1 hSucceeds.1
    exact hne (hAlone.unique j i (.inl ⟨_, hMem, by simp⟩) (.inl ⟨_, hFirst, by simp⟩))
  · cases hDuty

/-! ## Giving up -/

/-- When the only call in progress gives up on a loop, the loop goes on and the cache does not run. -/
theorem loop_of_giveUp (hFit : Fit m) (alone : m.outline.Alone)
    (hStep : m.step source (.giveUp id) = some n) :
    n.closings = [] ∧ n.isRunning = false ∧ ∃ t ∈ n.tasks, t.role.isLoop = true := by
  obtain ⟨c, hc, rfl, ⟨hAlive, -⟩, rfl⟩ := step_giveUp hStep
  have hWaits : (c.id, c.loop) ∈ m.outline.closings := List.mem_map_of_mem hc
  refine ⟨?_, ?_, ?_⟩
  · rw [List.filter_eq_nil_iff]
    intro c' hc'
    have hWaits' : (c'.id, c'.loop) ∈ m.outline.closings := List.mem_map_of_mem hc'
    simpa using alone.unique c'.id c.id (.inr ⟨_, hWaits'⟩) (.inr ⟨_, hWaits⟩)
  · have hNone : m.worker = none := alone.free _ hWaits
    rw [isRunning]
    simp [answer, hNone]
  · rw [isAlive, task?, List.isSome_find?, List.any_eq_true] at hAlive
    obtain ⟨t, ht, hId⟩ := hAlive
    refine ⟨t, ht, ?_⟩
    -- otherwise it would be the call itself
    by_contra hLoop
    have hPart := mem_parts ht
    have hCall : ∀ b, t.role.duty ≠ .loop b := by
      intro b
      cases hRole : t.role with
      | start | update => simp [Role.duty]
      | loop nextTick stopped => simp [hRole, Role.isLoop] at hLoop
    have hSame := alone.unique t.id c.id (.inl ⟨_, hPart, hCall⟩) (.inr ⟨_, hWaits⟩)
    exact hFit.sound.not_mem_parts hWaits _ (hSame ▸ hPart)

/-! ## In line -/

omit [DecidableEq κ] in
theorem mem_of_waiting_finish {t v : Task κ ν σ} {result : Except String Unit}
    (hv : v ∈ (s.finish t result).tasks) (hWaits : v.phase = .waiting) : v ∈ s.tasks := by
  -- a loop that finishes goes on to sweep, a call is dropped, and the loop it may launch does not
  -- wait
  cases hLoop : t.role.isLoop with
  | true =>
    rw [finish_loop hLoop] at hv
    rcases mem_tasks_putTask hv with rfl | hv
    · cases hWaits
    · exact hv.1
  | false =>
    obtain ⟨outcome, hEnd | hEnd⟩ := finish_call (s := s) hLoop result
    · rw [hEnd] at hv
      exact (mem_tasks_dropTask.1 hv).1
    · rw [hEnd] at hv
      rcases List.mem_append.1 hv with hv | hv
      · exact (mem_tasks_dropTask.1 hv).1
      · obtain rfl := List.mem_singleton.1 hv
        cases hWaits

/-- Who is in line after an event has just ticked or come in, or was in line before. -/
theorem waiting_of_step {e : Event κ} (hStep : s.step source e = some s') {v : Task κ ν σ}
    (hv : v ∈ s'.tasks) (hWaits : v.phase = .waiting) (old : v.id ≠ s.fresh) :
    e = .tick v.id ∨ e ≠ .enter v.id ∧ ∃ u ∈ s.tasks, u.id = v.id ∧ u.phase = .waiting := by
  -- a task that waits was waiting before, unless its loop has just ticked; a new one has a new
  -- number
  have hKept : e ≠ .enter v.id → v ∈ s.tasks →
      e = .tick v.id ∨ e ≠ .enter v.id ∧ ∃ u ∈ s.tasks, u.id = v.id ∧ u.phase = .waiting :=
    fun hNot hMem => .inr ⟨hNot, v, hMem, rfl, hWaits⟩
  have hAdded : ∀ role, v ∈ (s.addWaiting role).tasks → v ∈ s.tasks := by
    intro role hMem
    rcases List.mem_append.1 hMem with hMem | hMem
    · exact hMem
    · obtain rfl := List.mem_singleton.1 hMem
      exact absurd rfl old
  cases e with
  | start =>
    obtain rfl := Option.some.inj hStep
    unfold callStart at hv
    split at hv
    · exact hKept nofun hv
    · exact hKept nofun (hAdded _ hv)
  | update key =>
    obtain rfl := Option.some.inj hStep
    exact hKept nofun (hAdded _ hv)
  | close timeout =>
    obtain rfl := Option.some.inj hStep
    rcases tasks_callClose s timeout with hTasks | ⟨id, hTasks⟩
    · exact hKept nofun (hTasks ▸ hv)
    · obtain ⟨t, ht, hId, hSame, -⟩ := mem_tasks_stop (hTasks ▸ hv)
      exact .inr ⟨nofun, t, ht, hId.symm, hSame.symm.trans hWaits⟩
  | get key =>
    obtain rfl := Option.some.inj hStep
    exact hKept nofun hv
  | enter id =>
    obtain ⟨t, ht, rfl, -, -, rfl⟩ := step_enter hStep
    rcases mem_tasks_putTask hv with rfl | ⟨hMem, hne⟩
    · dsimp only at hWaits
      split at hWaits <;> cases hWaits
    · exact hKept (fun hEq => hne (Event.enter.inj hEq).symm) hMem
  | work id =>
    obtain ⟨t, ht, rfl, began, ready, rest, -, -, rfl⟩ := step_work hStep
    rcases work_cases s t began rest with ⟨result, -, hWork⟩ | ⟨place, ready, next, -, -, hWork⟩
    · rw [hWork] at hv
      exact hKept nofun (mem_of_waiting_finish hv hWaits)
    · rw [hWork] at hv
      rcases mem_tasks_putTask hv with rfl | hMem
      · cases hWaits
      · exact hKept nofun hMem.1
  | cutOff id =>
    obtain ⟨t, ht, rfl, -, rfl⟩ := step_cutOff hStep
    rcases mem_tasks_putTask hv with rfl | hMem
    · cases hWaits
    · exact hKept nofun hMem.1
  | sweep id =>
    obtain ⟨t, ht, rfl, -, rfl⟩ := step_sweep hStep
    rcases mem_tasks_putTask hv with rfl | hMem
    · cases hWaits
    · exact hKept nofun hMem.1
  | tick id =>
    obtain ⟨t, ht, rfl, -, nextTick, -, -, rfl⟩ := step_tick hStep
    rcases mem_tasks_putTask hv with rfl | hMem
    · exact .inl rfl
    · exact hKept nofun hMem.1
  | leave id =>
    obtain ⟨t, ht, rfl, -, -, rfl⟩ := step_leave hStep
    exact hKept nofun (mem_tasks_dropTask.1 hv).1
  | closed id =>
    obtain ⟨c, -, -, -, rfl⟩ := step_closed hStep
    exact hKept nofun hv
  | giveUp id =>
    obtain ⟨c, -, -, -, rfl⟩ := step_giveUp hStep
    exact hKept nofun hv
  | pass duration wall =>
    obtain ⟨-, rfl⟩ := step_pass hStep
    exact hKept nofun hv

/-- Who is in line after a run without a tick of its own has been in line all the time. -/
theorem waiting_of_run {events : List (Event κ)} (hFit : Fit m)
    (hRun : m.run source events = some n) (old : id < m.fresh) (noTick : .tick id ∉ events)
    {v : Task κ ν σ} (hv : v ∈ n.tasks) (hId : v.id = id) (hWaits : v.phase = .waiting) :
    .enter id ∉ events ∧ ∃ u ∈ m.tasks, u.id = id ∧ u.phase = .waiting := by
  induction events generalizing m with
  -- from the end backwards: what waits after the rest waited before it, and so no event let it
  -- enter
  | nil =>
    obtain rfl := Option.some.inj hRun
    exact ⟨List.not_mem_nil, v, hv, hId, hWaits⟩
  | cons e rest ih =>
    rw [State.run, Option.bind_eq_some_iff] at hRun
    obtain ⟨next, hStep, hRest⟩ := hRun
    have hFresh : m.fresh ≤ next.fresh := (moves_of_step hFit.orderly hStep).fresh_le
    rw [List.mem_cons, not_or] at noTick
    obtain ⟨hNoEnter, u, hu, rfl, hPhase⟩ :=
      ih (hFit.step hStep) hRest (Nat.lt_of_lt_of_le old hFresh) noTick.2
    rcases waiting_of_step hStep hu hPhase (Nat.ne_of_lt old) with hTick | ⟨hNot, hBefore⟩
    · exact absurd hTick.symm noTick.1
    · exact ⟨List.not_mem_cons_of_ne_of_not_mem hNot.symm hNoEnter, hBefore⟩

/-! ## While the cache does not run -/

section Made

variable {options : CacheOptions} {surroundings : σ} {clock : Clock} {events : List (Event κ)}

omit [DecidableEq κ] in
theorem alone_of_make (hMake : make options surroundings clock = .ok first) :
    first.outline.Alone := by
  rw [(outline_of_make hMake).1]
  constructor
  · rintro i j (⟨d, hMem, -⟩ | ⟨loop, hMem⟩) <;> cases hMem
  · nofun

theorem Awaited.not_overruns (hMake : make options surroundings clock = .ok first)
    (h : Awaited source first events) : ¬Overruns source first events := by
  have hNone : first.worker = none := congrArg Outline.worker (outline_of_make hMake).1
  have hFit := Fit.of_make hMake
  rw [← doubles_iff hFit hNone]
  exact h.not_doubles hFit (alone_of_make hMake)

omit [DecidableEq κ] in
theorem Fit.worker_eq_none (h : Fit m) (hNot : m.isRunning = false) : m.worker = none := by
  rw [Option.eq_none_iff_forall_ne_some]
  intro w hWorker
  rw [h.isRunning_iff.2 ⟨w, hWorker⟩] at hNot
  cases hNot

/-- A loop that is alive while the cache does not run was told to stop, and a call to close waits for
it or one gave up on it. -/
theorem stopped_of_not_running (hMake : make options surroundings clock = .ok first)
    (hNot : ¬Overruns source first events) (hRun : first.run source events = some m)
    (hStill : m.isRunning = false) {t : Task κ ν σ} (ht : t ∈ m.tasks)
    (hLoop : t.role.isLoop = true) :
    (∃ nextTick, t.role = .loop nextTick true) ∧
      ((∃ c ∈ m.closings, c.loop = t.id) ∨ GivenUp source first events t.id) := by
  have hNone := ((Fit.of_make hMake).of_run hRun).worker_eq_none hStill
  -- a loop that was not told to stop is the worker's, and there is none
  obtain ⟨stopped, hPart⟩ := loop_mem_parts_iff.2 ⟨t, ht, rfl, hLoop⟩
  constructor
  · cases hRole : t.role with
    | start | update => simp [hRole, Role.isLoop] at hLoop
    | loop nextTick stopped =>
      cases stopped with
      | true => exact ⟨nextTick, rfl⟩
      | false =>
        have hWorker := worker_of_unstopped hMake hNot hRun ⟨t, ht, rfl, nextTick, hRole⟩
        cases hNone.symm.trans hWorker
  · rcases looping_of_run hMake hNot hRun hPart with (hWorker | ⟨k, hWaits⟩) | hGiven
    · -- what still loops is the worker, is waited for, or was given up by a close; the first is
      -- excluded
      cases hNone.symm.trans hWorker
    · obtain ⟨c, hc, -, hFor⟩ := mem_closings_iff.1 hWaits
      exact .inl ⟨c, hc, hFor⟩
    · exact .inr hGiven

omit [DecidableEq κ] in
theorem Fit.quiet_of_not_running (h : Fit m) (hStill : m.isRunning = false)
    (none_starting : ∀ i, ¬m.Starting i) : Outline.Quiet m.fresh m.outline := by
  refine ⟨h.worker_eq_none hStill, fun j hj => none_starting j (starting_iff.2 hj), ?_⟩
  rintro ⟨k, loop⟩ hc
  exact Nat.le_of_lt (h.sound.lt k (Outline.mem_numbers.2 (.inr (.inl ⟨loop, hc⟩))))

/-- Once the cache does not run and no start is in progress, this stays so until the next start, and
no loop comes up. -/
theorem Fit.quiet_of_run (h : Fit m) (hStill : m.isRunning = false)
    (none_starting : ∀ i, ¬m.Starting i) (noStart : .start ∉ events)
    (hRun : m.run source events = some n) :
    n.isRunning = false ∧ ∀ t ∈ n.tasks, t.role.isLoop = true →
      ∃ u ∈ m.tasks, u.id = t.id ∧ u.role.isLoop = true := by
  have hKept : Outline.Quiet m.fresh n.outline ∧ ∀ i, (∃ b, (i, Duty.loop b) ∈ n.outline.parts) →
      ∃ b, (i, Duty.loop b) ∈ m.outline.parts := by
    -- the outline shows both parts of the statement, and its moves keep them
    refine h.keeps_outline (P := fun o => Outline.Quiet m.fresh o ∧
      ∀ i, (∃ b, (i, Duty.loop b) ∈ o.parts) → ∃ b, (i, Duty.loop b) ∈ m.outline.parts) ?_
      ⟨h.quiet_of_not_running hStill none_starting, fun _ => id⟩ hRun
    rintro o o' e he ⟨hQuiet, hLoops⟩ hMove
    have hNotStart : e ≠ .start := fun hEq => noStart (hEq ▸ he)
    refine ⟨hQuiet.move hMove hNotStart, fun i ⟨b, hLoop⟩ => ?_⟩
    exact hLoops i (hQuiet.loop_of_move hMove hNotStart hLoop)
  constructor
  · rw [← isRunning_outline, Outline.isRunning, hKept.1.worker]
    rfl
  · intro t ht hLoop
    exact loop_mem_parts_iff.1 (hKept.2 t.id (loop_mem_parts_iff.2 ⟨t, ht, rfl, hLoop⟩))

/-- Until the next start, a loop of a cache that does not run never ticks. -/
theorem no_tick_of_not_running (hMake : make options surroundings clock = .ok first)
    {before after : List (Event κ)} (hNot : ¬Overruns source first (before ++ after))
    (hM : first.run source before = some m) (hRun : m.run source after = some s)
    (hStill : m.isRunning = false) (none_starting : ∀ i, ¬m.Starting i)
    (noStart : .start ∉ after) (id : Nat) : .tick id ∉ after := by
  intro hMem
  obtain ⟨early, late, rfl⟩ := List.append_of_mem hMem
  rw [run_append, Option.bind_eq_some_iff] at hRun
  obtain ⟨p, hP, hRest⟩ := hRun
  rw [State.run, Option.bind_eq_some_iff] at hRest
  obtain ⟨q, hStep, -⟩ := hRest
  have hFit := (Fit.of_make hMake).of_run hM
  have hEarly : .start ∉ early := fun hStart => noStart (List.mem_append_left _ hStart)
  have hNone := (hFit.of_run hP).worker_eq_none
    (hFit.quiet_of_run hStill none_starting hEarly hP).1
  -- only a loop that was not told to stop ticks, and its handle would be kept
  obtain ⟨t, ht, rfl, -, nextTick, hRole, -⟩ := step_tick hStep
  have hBefore : ¬Overruns source first (before ++ early) := by
    intro hOver
    have hAll := hOver.append (.tick t.id :: late)
    rw [List.append_assoc] at hAll
    exact hNot hAll
  have hReach : first.run source (before ++ early) = some p := by
    rw [run_append, hM, Option.bind_some, hP]
  have hWorker := worker_of_unstopped hMake hBefore hReach ⟨t, ht, rfl, nextTick, hRole⟩
  cases hNone.symm.trans hWorker

/-- Take calls to start, to update and to close of which each is waited for before the next one comes
in, and anything that loops and time do meanwhile. While the cache does not run, every loop that is
alive was told to stop, and a call to close waits for it or one gave up on it. From then until the
next start the cache does not run, no loop comes up and none ticks, so that a loop enters at most the
refresh that it is in line for. And it holds in all states in which no call to close waits that no
loop is alive if the cache does not run, exactly if no call to close ever gives up. -/
theorem running_of_awaited (hMake : make options surroundings clock = .ok first)
    (hRun : first.run source events = some s) (hAwaited : Awaited source first events) :
    (∀ before after m, events = before ++ after → first.run source before = some m →
      m.isRunning = false →
        (∀ t ∈ m.tasks, t.role.isLoop = true → (∃ nextTick, t.role = .loop nextTick true) ∧
          ((∃ c ∈ m.closings, c.loop = t.id) ∨ GivenUp source first before t.id)) ∧
        ((∀ i, ¬m.Starting i) → .start ∉ after →
          s.isRunning = false ∧ (∀ id, .tick id ∉ after) ∧
          (∀ t ∈ s.tasks, t.role.isLoop = true →
            ∃ u ∈ m.tasks, u.id = t.id ∧ u.role.isLoop = true) ∧
          ∀ t ∈ m.tasks, t.role.isLoop = true → ∀ early late,
            after = early ++ .enter t.id :: late → t.phase = .waiting ∧ .enter t.id ∉ early)) ∧
    ((∀ before after m, events = before ++ after → first.run source before = some m →
        m.closings = [] → m.isRunning = false → ∀ t ∈ m.tasks, t.role.isLoop = false) ↔
      ∀ id, .giveUp id ∉ events) := by
  have hFirst := Fit.of_make hMake
  have hNot := hAwaited.not_overruns hMake
  refine ⟨?_, ?_, ?_⟩
  · rintro before after m rfl hM hStill
    have hFit := hFirst.of_run hM
    have hBefore : ¬Overruns source first before := fun hOver => hNot (hOver.append after)
    refine ⟨fun t ht hLoop => stopped_of_not_running hMake hBefore hM hStill ht hLoop, ?_⟩
    intro hStarting hNoStart
    have hAfter : m.run source after = some s := by
      rwa [run_append, hM, Option.bind_some] at hRun
    obtain ⟨hEnd, hLoops⟩ := hFit.quiet_of_run hStill hStarting hNoStart hAfter
    have hNoTick := no_tick_of_not_running hMake hNot hM hAfter hStill hStarting hNoStart
    refine ⟨hEnd, hNoTick, hLoops, ?_⟩
    rintro t ht hLoop early late rfl
    rw [run_append, Option.bind_eq_some_iff] at hAfter
    obtain ⟨p, hP, hRest⟩ := hAfter
    rw [State.run, Option.bind_eq_some_iff] at hRest
    obtain ⟨q, hStep, -⟩ := hRest
    obtain ⟨v, hv, hId, hWaits, -⟩ := step_enter hStep
    have hEarly : .tick t.id ∉ early := fun hTick => hNoTick t.id (List.mem_append_left _ hTick)
    obtain ⟨hFirstTime, u, hu, hSame, hPhase⟩ :=
      waiting_of_run hFit hP (hFit.orderly.id_lt t ht) hEarly hv hId hWaits
    obtain rfl := hFit.orderly.eq_of_id hu ht hSame
    exact ⟨hPhase, hFirstTime⟩
  · -- whoever gives up leaves a loop behind
    intro hAll id hMem
    obtain ⟨before, after, rfl⟩ := List.append_of_mem hMem
    rw [run_append, Option.bind_eq_some_iff] at hRun
    obtain ⟨p, hP, hRest⟩ := hRun
    rw [State.run, Option.bind_eq_some_iff] at hRest
    obtain ⟨q, hStep, -⟩ := hRest
    have hAlone := (hAwaited.append hP).1.alone hFirst (alone_of_make hMake) hP
    obtain ⟨hClosings, hStill, t, ht, hLoop⟩ := loop_of_giveUp (hFirst.of_run hP) hAlone hStep
    have hOver := hAll (before ++ [.giveUp id]) after q (by simp) (run_snoc.2 ⟨p, hP, hStep⟩)
      hClosings hStill t ht
    rw [hLoop] at hOver
    cases hOver
  · rintro hNever before after m rfl hM hClosings hStill t ht
    rw [Bool.eq_false_iff]
    intro hLoop
    have hBefore : ¬Overruns source first before := fun hOver => hNot (hOver.append after)
    obtain ⟨-, ⟨c, hc, -⟩ | ⟨early, late, id, p, rfl, -⟩⟩ :=
      stopped_of_not_running hMake hBefore hM hStill ht hLoop
    · rw [hClosings] at hc
      cases hc
    · exact hNever id (by simp)

/-- A cache is closed while its loop is in line. The loop refreshes once more and ends, and the call to
close has waited for it. -/
theorem running_of_awaited_close :
    let options : CacheOptions := ⟨"cards", .background, 10, 0⟩
    let source : Source String Nat Unit := ⟨.done (.ok ()), fun _ => .done (.ok ())⟩
    let events : List (Event String) :=
      [.start, .enter 0, .work 0, .pass 10 10, .tick 1, .close 5, .enter 1, .work 1, .sweep 1,
        .leave 1, .closed 2]
    ∃ first m s, make options () ⟨0, 0⟩ = .ok first ∧ Awaited source first events ∧
      first.run source (events.take 6) = some m ∧ m.isRunning = false ∧
      first.run source events = some s ∧
      (∀ t ∈ m.tasks, t.role.isLoop = true → (∃ nextTick, t.role = .loop nextTick true) ∧
        t.phase = .waiting) ∧
      ∀ t ∈ s.tasks, t.role.isLoop = false := by
  intro options source events
  -- all that is to be computed, in one evaluation; what follows reads the general statement at it
  obtain ⟨first, hMake, hAwaited, ⟨m, hM, hStill, hOnly, hLoops⟩, s, hRun, hClosings, hEnd⟩ :
      ∃ first, make options () ⟨0, 0⟩ = .ok first ∧ Awaited source first events ∧
        (∃ m ∈ first.run source (events.take 6), m.isRunning = false ∧
          (∀ t ∈ m.tasks, t.role.isLoop = true) ∧ ∀ t ∈ m.tasks, t.id = 1) ∧
        ∃ s ∈ first.run source events, s.closings = [] ∧ s.isRunning = false :=
    ⟨_, rfl, by decide +kernel, by decide +kernel, by decide +kernel⟩
  have hStarting : ∀ i, ¬m.Starting i := by
    rintro i ⟨t, ht, -, hStart⟩
    have hLoop := hOnly t ht
    rw [hStart] at hLoop
    cases hLoop
  obtain ⟨hStates, hNone⟩ := running_of_awaited hMake hRun hAwaited
  refine ⟨first, m, s, hMake, hAwaited, hM, hStill, hRun, fun t ht hLoop => ?_, ?_⟩
  · obtain ⟨hStopped, hLater⟩ := hStates (events.take 6) (events.drop 6) m rfl hM hStill
    obtain ⟨-, -, -, hEnters⟩ := hLater hStarting (by simp [events])
    have hEnter : events.drop 6 = [] ++ .enter t.id :: [.work 1, .sweep 1, .leave 1, .closed 2] := by
      simp [events, hLoops t ht]
    exact ⟨(hStopped t ht hLoop).1, (hEnters t ht hLoop _ _ hEnter).1⟩
  · exact hNone.2 (by simp [events]) events [] s (by simp) hRun hClosings hEnd

/-- A call to close gives up on a loop that is in its refresh. Then the cache does not run, and the
refresh is still in progress. And a loop that is in line after an update begins its refresh when the
call to close has already given up. -/
theorem not_running_of_awaited :
    let options : CacheOptions := ⟨"cards", .background, 10, 0⟩
    let source : Source String Nat Unit := ⟨.done (.ok ()), fun _ => .done (.ok ())⟩
    let refreshing : List (Event String) :=
      [.start, .enter 0, .work 0, .pass 10 10, .tick 1, .enter 1, .close 0, .giveUp 2]
    let inLine : List (Event String) :=
      [.start, .enter 0, .work 0, .pass 10 10, .update "a", .enter 2, .tick 1, .work 2, .close 0,
        .giveUp 3]
    ∃ first m n s, make options () ⟨0, 0⟩ = .ok first ∧
      Awaited source first refreshing ∧ first.run source refreshing = some m ∧
      m.returned = [(2, .error (.shutdownTimeout "cards" 0)), (0, .ok ())] ∧
      m.isRunning = false ∧ (∃ t ∈ m.tasks, t.role.isLoop = true ∧ t.began? = some 10) ∧
      Awaited source first (inLine ++ [.enter 1]) ∧ first.run source inLine = some n ∧
      n.isRunning = false ∧ (∀ t ∈ n.tasks, t.began? = none) ∧
      n.step source (.enter 1) = some s ∧
      ∃ t ∈ s.tasks, t.role.isLoop = true ∧ t.began? = some 10 := by
  intro options source refreshing inLine
  -- the states that the runs lead to are computed, not written down
  obtain ⟨first, hMake, hFirst, ⟨m, hM, hReturned, hStill, hRefreshes⟩, hSecond, n, hN, hOver, hNone,
      s, hS, hLater⟩ :
      ∃ first, make options () ⟨0, 0⟩ = .ok first ∧ Awaited source first refreshing ∧
        (∃ m ∈ first.run source refreshing,
          m.returned = [(2, .error (.shutdownTimeout "cards" 0)), (0, .ok ())] ∧
          m.isRunning = false ∧ ∃ t ∈ m.tasks, t.role.isLoop = true ∧ t.began? = some 10) ∧
        Awaited source first (inLine ++ [.enter 1]) ∧
        ∃ n ∈ first.run source inLine, n.isRunning = false ∧ (∀ t ∈ n.tasks, t.began? = none) ∧
          ∃ s ∈ n.step source (.enter 1), ∃ t ∈ s.tasks, t.role.isLoop = true ∧
            t.began? = some 10 :=
    ⟨_, rfl, by decide +kernel, by decide +kernel, by decide +kernel, by decide +kernel⟩
  exact ⟨first, m, n, s, hMake, hFirst, hM, hReturned, hStill, hRefreshes, hSecond, hN, hOver, hNone,
    hS, hLater⟩

end Made

end State

end ItemComposition.Cache
