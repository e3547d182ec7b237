import ItemComposition.Proofs.Cache.Handles

/-!
# Loops of a cache that is started and closed

Whoever starts a cache is refused while it runs. Whether it runs is looked up when the call comes
in, and a loop is launched when the first refresh has succeeded, which may be much later. So two
calls to start that overlap can both succeed (`Doubles`), and then there are two loops, of which the
cache keeps one handle. Where this does not happen, all is as one expects: there is one loop at most
that has not been told to stop, it takes a call to close before another start can succeed, and a
call to close leaves no loop behind that nobody waits for or has given up on.

A call acts in one go between two points at which it waits: for the update lock, for the source, or
for the end of a loop.

## Key results

- `exists_success`: where a loop whose handle is kept comes from
- `doubles_iff`: two starts succeed in each other's time exactly if one succeeds while the cache runs
- `at_most_one_unstopped_iff`, `looping_of_run`: the loops that are alive
- `loops_of_calls`: what holds for all calls in all orders
-/

namespace ItemComposition.Cache

variable {κ ν σ : Type}

namespace State

variable {s s' m n first : State κ ν σ} {id : Nat}

/-- A call to start is in progress. -/
def Starting (s : State κ ν σ) (id : Nat) : Prop := ∃ t ∈ s.tasks, t.id = id ∧ t.role = .start

/-- A loop is alive and has not been told to stop. -/
def Unstopped (s : State κ ν σ) (id : Nat) : Prop :=
  ∃ t ∈ s.tasks, t.id = id ∧ ∃ nextTick, t.role = .loop nextTick false

/-- A call to start succeeds between two states. -/
def Succeeds (s : State κ ν σ) (id : Nat) (s' : State κ ν σ) : Prop :=
  s.Starting id ∧ s'.returned = (id, .ok ()) :: s.returned

theorem starting_iff : s.Starting id ↔ (id, Duty.start) ∈ s.outline.parts := by
  rw [outline, List.mem_map]
  refine exists_congr fun t => and_congr_right fun _ => ?_
  rw [Prod.mk.injEq]
  cases t.role <;> simp [Role.duty]

theorem unstopped_iff : s.Unstopped id ↔ (id, Duty.loop false) ∈ s.outline.parts := by
  rw [outline, List.mem_map]
  refine exists_congr fun t => and_congr_right fun _ => ?_
  rw [Prod.mk.injEq]
  cases t.role <;> simp [Role.duty]

/-- What every state of a cache is. -/
structure Fit (s : State κ ν σ) : Prop where
  orderly : Orderly s
  sound : s.outline.Sound

theorem Fit.of_make {options : CacheOptions} {surroundings : σ} {clock : Clock}
    (h : make options surroundings clock = .ok s) : Fit s := by
  refine ⟨.of_make h, ?_⟩
  unfold make at h
  split at h
  · cases h
  · obtain rfl := Except.ok.inj h
    exact ⟨List.nodup_nil, nofun, nofun⟩

variable [DecidableEq κ] {source : Source κ ν σ}

theorem Fit.step {e : Event κ} (h : Fit s) (hStep : s.step source e = some s') : Fit s' :=
  ⟨h.orderly.step hStep, h.sound.move (moves_of_step h.orderly hStep)⟩

theorem Fit.of_run {events : List (Event κ)} (h : Fit s) (hRun : s.run source events = some s') :
    Fit s' :=
  run_keeps (fun _ _ _ h hStep => h.step hStep) h hRun

omit [DecidableEq κ] in
/-- The cache runs exactly while it keeps a handle. -/
theorem Fit.isRunning_iff (h : Fit s) : s.isRunning = true ↔ ∃ w, s.worker = some w := by
  rw [← isRunning_outline]
  exact h.sound.isRunning_iff

/-- A start that succeeds launches a loop. -/
theorem Fit.launch_of_succeeds (h : Fit s) (hStep : s.step source (.work id) = some s')
    (hSucceeds : s.Succeeds id s') :
    s'.outline = (s.outline.drop id).launch.answer id (.ok ()) := by
  obtain ⟨hStarting, hReturned⟩ := hSucceeds
  have hMove := moves_of_step h.orderly hStep
  have hAnswered : s'.outline.returned = (id, .ok ()) :: s.outline.returned := hReturned
  have hStart := starting_iff.1 hStarting
  generalize s'.outline = o' at hMove hAnswered
  cases hMove with
  | rest => exact absurd hAnswered.symm (List.cons_ne_self _ _)
  | updated inProgress => cases h.sound.duty_unique inProgress hStart
  | failed inProgress reason => cases (List.cons.inj hAnswered).1
  | launched inProgress => rfl

omit [DecidableEq κ] in
theorem succeeds_of_launch (h : s'.outline = (s.outline.drop id).launch.answer id (.ok ()))
    (hStart : (id, Duty.start) ∈ s.outline.parts) : s.Succeeds id s' :=
  ⟨starting_iff.2 hStart, congrArg Outline.returned h⟩

/-- The state before an event in the middle of a run, and what comes after it. -/
theorem step_of_run {before after : List (Event κ)} {e : Event κ}
    (hM : s.run source before = some m) (hRun : s.run source (before ++ e :: after) = some s') :
    ∃ next, m.step source e = some next ∧ next.run source after = some s' := by
  rw [run_append, hM, Option.bind_some, State.run] at hRun
  exact Option.bind_eq_some_iff.1 hRun

theorem run_snoc {events : List (Event κ)} {e : Event κ} :
    s.run source (events ++ [e]) = some s' ↔
      ∃ m, s.run source events = some m ∧ m.step source e = some s' := by
  rw [run_append, Option.bind_eq_some_iff]
  simp [run]

/-! ## Between two calls to close -/

/-- Once the cache has a handle, it has one until the next call to close. -/
theorem Fit.handle_of_run {between : List (Event κ)} (h : Fit m)
    (hRun : m.run source between = some n) (noClose : ∀ timeout, .close timeout ∉ between)
    (handle : ∃ w, m.worker = some w) : ∃ w, n.worker = some w := by
  induction between generalizing m with
  | nil =>
    obtain rfl := Option.some.inj hRun
    exact handle
  | cons e between ih =>
    rw [State.run, Option.bind_eq_some_iff] at hRun
    obtain ⟨next, hStep, hRest⟩ := hRun
    have hNext : ∃ w, next.worker = some w := by
      -- a launch sets the handle, and only a close takes it away
      rcases h.sound.move_cases (moves_of_step h.orderly hStep) with
        ⟨j, -, -, hNext⟩ | ⟨⟨timeout, rfl⟩, -⟩ | ⟨-, hKeeps⟩
      · exact ⟨_, congrArg Outline.worker hNext⟩
      · exact absurd List.mem_cons_self (noClose timeout)
      · obtain ⟨w, hWorker⟩ := handle
        exact ⟨w, hKeeps.worker.trans hWorker⟩
    apply ih (h.step hStep) hRest _ hNext
    intro timeout hMem
    exact noClose timeout (List.mem_cons_of_mem _ hMem)

/-- The loop whose handle the cache keeps was launched by a start that succeeded; since then nobody
has called to close, and every start that is in progress now was in progress then. -/
theorem exists_success (h : Fit first) (none_kept : first.worker = none)
    {events : List (Event κ)} (hRun : first.run source events = some s) {w : Nat}
    (hWorker : s.worker = some w) :
    ∃ before after i p q, events = before ++ .work i :: after ∧
      first.run source before = some p ∧ p.step source (.work i) = some q ∧ p.Succeeds i q ∧
      q.run source after = some s ∧ (∀ timeout, .close timeout ∉ after) ∧
      ∀ j, s.Starting j → q.Starting j := by
  -- by induction on the events from the last one on
  induction events using List.reverseRecOn generalizing s w with
  | nil =>
    obtain rfl := Option.some.inj hRun
    cases none_kept.symm.trans hWorker
  | append_singleton events e ih =>
    obtain ⟨m, hM, hStep⟩ := run_snoc.1 hRun
    have hFit := h.of_run hM
    rcases hFit.sound.move_cases (moves_of_step hFit.orderly hStep) with
      ⟨i, rfl, hStart, hNext⟩ | ⟨-, hNone, -⟩ | ⟨hNot, hKeeps⟩
    · exact ⟨events, [], i, m, s, rfl, hM, hStep, succeeds_of_launch hNext hStart, rfl,
        fun _ => List.not_mem_nil, fun _ => id⟩
    · cases hNone.symm.trans hWorker
    · have hKept : m.worker = some w := hKeeps.worker.symm.trans hWorker
      obtain ⟨before, after, i, p, q, hEvents, hP, hQ, hSucceeds, hAfter, hNoClose, hStarts⟩ :=
        ih hM hKept
      refine ⟨before, after ++ [e], i, p, q, by simp [hEvents], hP, hQ, hSucceeds,
        run_snoc.2 ⟨m, hAfter, hStep⟩, fun timeout hMem => ?_, fun j hj => hStarts j ?_⟩
      · rcases List.mem_append.1 hMem with hMem | hMem
        · exact hNoClose timeout hMem
        · exact hNot timeout (List.mem_singleton.1 hMem).symm
      · -- while there is a handle, no other start is let in
        rcases hKeeps.starting j (starting_iff.1 hj) with hj | hNone
        · exact starting_iff.2 hj
        · cases hNone.symm.trans hKept

/-! ## Two starts that succeed -/

/-- In a run, the start `i` succeeds, which leads to `m`; the events `between` lead from there to
`n`, and then the start `j` succeeds. -/
def Twice (source : Source κ ν σ) (first : State κ ν σ) (events : List (Event κ)) (i j : Nat)
    (between : List (Event κ)) (m n : State κ ν σ) : Prop :=
  ∃ before after p q, events = before ++ .work i :: (between ++ .work j :: after) ∧
    first.run source before = some p ∧ p.step source (.work i) = some m ∧ p.Succeeds i m ∧
    m.run source between = some n ∧ n.step source (.work j) = some q ∧ n.Succeeds j q

/-- In a run, a start succeeds that was in progress when another one succeeded, and nobody has
called to close in between. -/
def Doubles (source : Source κ ν σ) (first : State κ ν σ) (events : List (Event κ)) : Prop :=
  ∃ i j between m n, Twice source first events i j between m n ∧ m.Starting j ∧
    ∀ timeout, .close timeout ∉ between

/-- In a run, a start succeeds while the cache runs. -/
def Overruns (source : Source κ ν σ) (first : State κ ν σ) (events : List (Event κ)) : Prop :=
  ∃ before after j p q, events = before ++ .work j :: after ∧ first.run source before = some p ∧
    p.step source (.work j) = some q ∧ p.Succeeds j q ∧ p.isRunning = true

theorem Overruns.append {events : List (Event κ)}
    (h : Overruns source first events) (rest : List (Event κ)) :
    Overruns source first (events ++ rest) := by
  obtain ⟨before, after, j, p, q, rfl, hRest⟩ := h
  exact ⟨before, after ++ rest, j, p, q, by simp, hRest⟩

/-- Whoever succeeds after another one, with no call to close in between, succeeds while the cache
runs. -/
theorem Fit.overruns_of_twice (h : Fit first) {events between : List (Event κ)} {i j : Nat}
    (hTwice : Twice source first events i j between m n)
    (noClose : ∀ timeout, .close timeout ∉ between) : Overruns source first events := by
  obtain ⟨before, after, p, q, rfl, hP, hM, hFirst, hN, hQ, hSecond⟩ := hTwice
  have hFit : Fit p := h.of_run hP
  have hLaunch := hFit.launch_of_succeeds hM hFirst
  have hKept := (hFit.step hM).handle_of_run hN noClose ⟨_, congrArg Outline.worker hLaunch⟩
  refine ⟨before ++ .work i :: between, after, j, n, q, by simp, ?_, hQ, hSecond, ?_⟩
  · rw [run_append, hP, Option.bind_some, State.run, hM, Option.bind_some, hN]
  · exact ((hFit.step hM).of_run hN).isRunning_iff.2 hKept

/-- Two starts succeed in each other's time, with no call to close in between, exactly if one
succeeds while the cache runs. -/
theorem doubles_iff (h : Fit first) (none_kept : first.worker = none) {events : List (Event κ)} :
    Doubles source first events ↔ Overruns source first events := by
  constructor
  · rintro ⟨i, j, between, m, n, hTwice, -, hNoClose⟩
    exact h.overruns_of_twice hTwice hNoClose
  · rintro ⟨before, after, j, p, q, rfl, hP, hQ, hSucceeds, hRunning⟩
    obtain ⟨w, hWorker⟩ := (h.of_run hP).isRunning_iff.1 hRunning
    obtain ⟨early, between, i, m, m', rfl, hM, hM', hOther, hBetween, hNoClose, hStarts⟩ :=
      exists_success h none_kept hP hWorker
    exact ⟨i, j, between, m', p,
      ⟨early, after, m, q, by simp, hM, hM', hOther, hBetween, hQ, hSucceeds⟩,
      hStarts j hSucceeds.1, hNoClose⟩

/-! ## The loops that are alive -/

section Made

variable {options : CacheOptions} {surroundings : σ} {clock : Clock} {events : List (Event κ)}

omit [DecidableEq κ] in
theorem outline_of_make (h : make options surroundings clock = .ok first) :
    first.outline = ⟨[], [], none, none, 0, []⟩ ∧ first.options = options := by
  unfold make at h
  split at h
  · cases h
  · obtain rfl := Except.ok.inj h
    exact ⟨rfl, rfl⟩

/-- As long as no start succeeds while the cache runs, the cache keeps the handle of the only loop
that has not been told to stop. -/
theorem worker_of_unstopped (hMake : make options surroundings clock = .ok first)
    (hNot : ¬Overruns source first events) (hRun : first.run source events = some s) {i : Nat}
    (hLoop : s.Unstopped i) : s.worker = some i := by
  induction events using List.reverseRecOn generalizing s i with
  | nil =>
    obtain rfl := Option.some.inj hRun
    rw [unstopped_iff, (outline_of_make hMake).1] at hLoop
    cases hLoop
  | append_singleton events e ih =>
    obtain ⟨m, hM, hStep⟩ := run_snoc.1 hRun
    have hFit := (Fit.of_make hMake).of_run hM
    have hBefore : ∀ i, m.Unstopped i → m.worker = some i := fun i =>
      ih (fun hOver => hNot (hOver.append [e])) hM
    rw [unstopped_iff] at hLoop
    rcases hFit.sound.move_cases (moves_of_step hFit.orderly hStep) with
      ⟨j, rfl, hStart, hNext⟩ | ⟨-, -, hStopped⟩ | ⟨-, hKeeps⟩
    · rw [hNext] at hLoop
      rcases Outline.mem_join.1 hLoop with hLoop | ⟨rfl, -⟩
      · -- with another loop there, the start would have succeeded while the cache runs
        have hWorker := hBefore i (unstopped_iff.2 (Outline.mem_drop.1 hLoop).1)
        exact absurd ⟨events, [], j, m, s, rfl, hM, hStep, succeeds_of_launch hNext hStart,
          hFit.isRunning_iff.2 ⟨i, hWorker⟩⟩ hNot
      · exact congrArg Outline.worker hNext
    · obtain ⟨hLoop, hTarget⟩ := hStopped i hLoop
      exact absurd (hFit.sound.held i (hBefore i (unstopped_iff.2 hLoop))).1 hTarget
    · exact hKeeps.worker.trans (hBefore i (unstopped_iff.2 ((hKeeps.unstopped i).1 hLoop)))

/-- There is one loop at most that has not been told to stop, in all states, exactly if no start
succeeds while the cache runs. -/
theorem at_most_one_unstopped_iff (hMake : make options surroundings clock = .ok first)
    (hRun : first.run source events = some s) :
    (∀ before after m, events = before ++ after → first.run source before = some m →
      ∀ i j, m.Unstopped i → m.Unstopped j → i = j) ↔ ¬Overruns source first events := by
  constructor
  · rintro hOne ⟨before, after, j, p, q, rfl, hP, hQ, hSucceeds, hRunning⟩
    have hFit := (Fit.of_make hMake).of_run hP
    obtain ⟨w, hWorker⟩ := hFit.isRunning_iff.1 hRunning
    have hHeld := (hFit.sound.held w hWorker).2
    have hLaunch := hFit.launch_of_succeeds hQ hSucceeds
    -- the loop that runs is still there beside the new one
    have hOld : q.Unstopped w := by
      rw [unstopped_iff, hLaunch]
      have hStart := starting_iff.1 hSucceeds.1
      exact List.mem_append_left _ (((hFit.sound.keeps_drop hStart (by simp)).unstopped w).2 hHeld)
    have hNew : q.Unstopped p.fresh := by
      rw [unstopped_iff, hLaunch]
      exact List.mem_append_right _ (List.mem_singleton_self _)
    have hSame : w = p.fresh := hOne (before ++ [.work j]) after q (by simp)
      (run_snoc.2 ⟨p, hP, hQ⟩) w p.fresh hOld hNew
    have hLt : w < p.fresh := by
      obtain ⟨t, ht, hId, -⟩ := unstopped_iff.2 hHeld
      exact hId ▸ hFit.orderly.id_lt t ht
    omega
  · rintro hNot before after m rfl hM i j hi hj
    have hBefore : ¬Overruns source first before := fun hOver => hNot (hOver.append after)
    have hFirst := worker_of_unstopped hMake hBefore hM hi
    have hSecond := worker_of_unstopped hMake hBefore hM hj
    exact Option.some.inj (hFirst.symm.trans hSecond)

/-- In a run, a call to close gives up on a loop. -/
def GivenUp (source : Source κ ν σ) (first : State κ ν σ) (events : List (Event κ)) (loop : Nat) :
    Prop :=
  ∃ before after id m, events = before ++ .giveUp id :: after ∧
    first.run source before = some m ∧ ∃ c ∈ m.closings, c.id = id ∧ c.loop = loop

theorem GivenUp.append {loop : Nat} (h : GivenUp source first events loop)
    (rest : List (Event κ)) : GivenUp source first (events ++ rest) loop := by
  obtain ⟨before, after, id, m, rfl, hRest⟩ := h
  exact ⟨before, after ++ rest, id, m, by simp, hRest⟩

omit [DecidableEq κ] in
theorem mem_closings_iff {loop : Nat} :
    (id, loop) ∈ s.outline.closings ↔ ∃ c ∈ s.closings, c.id = id ∧ c.loop = loop := by
  rw [outline, List.mem_map]
  simp only [Prod.mk.injEq]

/-- As long as no start succeeds while the cache runs, the cache keeps the handle of a loop that is
alive, or a call to close waits for it, or one has given up on it. -/
theorem looping_of_run (hMake : make options surroundings clock = .ok first)
    (hNot : ¬Overruns source first events) (hRun : first.run source events = some s) {i : Nat}
    {stopped : Bool} (hLoop : (i, Duty.loop stopped) ∈ s.outline.parts) :
    s.outline.InHand i ∨ GivenUp source first events i := by
  induction events using List.reverseRecOn generalizing s i stopped with
  | nil =>
    obtain rfl := Option.some.inj hRun
    rw [(outline_of_make hMake).1] at hLoop
    cases hLoop
  -- the induction is on the last event: the loop in question is one of the state before it, or new
  | append_singleton events e ih =>
    obtain ⟨m, hM, hStep⟩ := run_snoc.1 hRun
    have hFit := (Fit.of_make hMake).of_run hM
    have hNone : ∀ j, e = .work j → (j, Duty.start) ∈ m.outline.parts →
        s.outline = (m.outline.drop j).launch.answer j (.ok ()) → m.outline.worker = none := by
      rintro j rfl hStart hNext
      rw [Option.eq_none_iff_forall_ne_some]
      intro w hWorker
      exact hNot ⟨events, [], j, m, s, rfl, hM, hStep, succeeds_of_launch hNext hStart,
        hFit.isRunning_iff.2 ⟨w, hWorker⟩⟩
    rcases hFit.sound.inHand_of_move (moves_of_step hFit.orderly hStep) hNone hLoop with
      hIn | ⟨⟨b, hMem⟩, hOut | ⟨k, rfl, hWaits⟩⟩
    · exact .inl hIn
    · -- out of hand before is given up before, and what was given up once is given up for good
      rcases ih (fun hOver => hNot (hOver.append [e])) hM hMem with hIn | hGiven
      · exact absurd hIn hOut
      · exact .inr (hGiven.append [e])
    · exact .inr ⟨events, [], k, m, rfl, hM, mem_closings_iff.1 hWaits⟩

/-! ## Calls -/

/-- What the moves of its events keep of an outline, a run keeps. -/
theorem Fit.keeps_outline {P : Outline → Prop} (h : Fit m)
    (keeps : ∀ (o o' : Outline) (e : Event κ), e ∈ events → P o →
      Moves m.options.name o e o' → P o')
    (hm : P m.outline) (hRun : m.run source events = some n) : P n.outline := by
  induction events generalizing m with
  | nil => exact Option.some.inj hRun ▸ hm
  | cons e rest ih =>
    rw [State.run, Option.bind_eq_some_iff] at hRun
    obtain ⟨next, hStep, hRest⟩ := hRun
    have hNext := keeps _ _ e List.mem_cons_self hm (moves_of_step h.orderly hStep)
    refine ih (h.step hStep) (fun o o' e he => ?_) hNext hRest
    rw [(frame_of_step hStep).1]
    exact keeps o o' e (List.mem_cons_of_mem _ he)

theorem name_of_run (hMake : make options surroundings clock = .ok first)
    (hRun : first.run source events = some s) : s.options.name = options.name := by
  have hSame : s.options = first.options :=
    run_keeps (P := fun s => s.options = first.options)
      (fun _ _ _ h hStep => (frame_of_step hStep).1.trans h) rfl hRun
  rw [hSame, (outline_of_make hMake).2]

/-- How calls to start return. -/
theorem outcome_of_start (hMake : make options surroundings clock = .ok first)
    {before after : List (Event κ)} (hM : first.run source before = some m)
    (hRun : first.run source (before ++ .start :: after) = some s)
    {outcome : Except CacheError Unit} (hOutcome : (m.fresh, outcome) ∈ s.returned) :
    if m.isRunning then outcome = .error (.alreadyStarted options.name)
    else outcome = .ok () ∨ ∃ reason, outcome = .error (.refreshFailed options.name reason) := by
  have hFit := (Fit.of_make hMake).of_run hM
  have hName := name_of_run hMake hM
  obtain ⟨called, hStep, hAfter⟩ := step_of_run hM hRun
  have hGood := hFit.sound.returnsGood_start (moves_of_step hFit.orderly hStep)
  -- what may be returned for this call is fixed when it is made, and every later move keeps it
  have hLater := (hFit.step hStep).keeps_outline
    (fun o o' e _ h hMove => h.move (by rwa [(frame_of_step hStep).1] at hMove)) hGood hAfter
  have hReturned := hLater.returned outcome hOutcome
  rwa [isRunning_outline, hName] at hReturned

/-- A call to close that comes after one start has succeeded has returned before the next one
succeeds, if no call to close waits then. -/
theorem returned_of_close {timeout : Nat} {between early late : List (Event κ)} (h : Fit m)
    (hBetween : between = early ++ .close timeout :: late)
    (hRun : m.run source between = some n) (none_waits : n.closings = []) :
    ∃ c outcome, m.run source early = some c ∧ (c.fresh, outcome) ∈ n.returned := by
  rw [hBetween, run_append, Option.bind_eq_some_iff] at hRun
  obtain ⟨c, hC, hRest⟩ := hRun
  rw [State.run, Option.bind_eq_some_iff] at hRest
  obtain ⟨closing, hStep, hLate⟩ := hRest
  have hFit := h.of_run hC
  -- from the call on it either waits or has returned, and nothing waits at the end
  have hCall := Outline.pending_or_returned_of_close (moves_of_step hFit.orderly hStep)
  have hLater := (hFit.step hStep).keeps_outline
    (fun o o' e _ h hMove => Outline.pending_or_returned_of_move hMove h) hCall hLate
  rcases hLater with ⟨loop, hWaits⟩ | ⟨outcome, hReturned⟩
  · simp [outline, none_waits] at hWaits
  · exact ⟨c, outcome, hC, hReturned⟩

/-- After a call to close that came while no start was in progress has returned without an error,
and with no start since, every loop that is alive was told to stop; and another call to close that
came before waits for it, or one gave up on it. -/
theorem looping_after_close (hMake : make options surroundings clock = .ok first)
    {before after : List (Event κ)} {timeout : Nat}
    (hNot : ¬Overruns source first (before ++ .close timeout :: after))
    (hM : first.run source before = some m)
    (hRun : first.run source (before ++ .close timeout :: after) = some s)
    (none_starting : ∀ i, ¬m.Starting i) (noStart : .start ∉ after)
    (hClosed : (m.fresh, .ok ()) ∈ s.returned) {t : Task κ ν σ} (ht : t ∈ s.tasks)
    (hLoop : t.role.isLoop = true) :
    (∃ nextTick, t.role = .loop nextTick true) ∧
      ((∃ c ∈ s.closings, c.id < m.fresh ∧ c.loop = t.id) ∨
        GivenUp source first (before ++ .close timeout :: after) t.id) := by
  have hFit := (Fit.of_make hMake).of_run hM
  have hSound := ((Fit.of_make hMake).of_run hRun).sound
  have hQuiet : Outline.Quiet m.fresh s.outline := by
    obtain ⟨closing, hStep, hAfter⟩ := step_of_run hM hRun
    have hCall := hFit.sound.quiet_of_close (fun j hj => none_starting j (starting_iff.2 hj))
      (moves_of_step hFit.orderly hStep)
    exact (hFit.step hStep).keeps_outline
      (fun o o' e he h hMove => h.move hMove fun hEq => noStart (hEq ▸ he)) hCall hAfter
  cases hRole : t.role with
  | start | update => simp [hRole, Role.isLoop] at hLoop
  | loop nextTick stopped =>
    have hPart : (t.id, Duty.loop stopped) ∈ s.outline.parts := by
      have hPart := mem_parts ht
      rwa [hRole] at hPart
    constructor
    · cases stopped with
      | true => exact ⟨nextTick, rfl⟩
      | false =>
        have hWorker := worker_of_unstopped hMake hNot hRun (unstopped_iff.2 hPart)
        cases hQuiet.worker.symm.trans hWorker
    · rcases looping_of_run hMake hNot hRun hPart with (hWorker | ⟨k, hWaits⟩) | hGiven
      · cases hQuiet.worker.symm.trans hWorker
      · -- this call has returned, so another one waits
        have hLe := hQuiet.closing_le _ hWaits
        have hne : k ≠ m.fresh := by
          rintro rfl
          exact hSound.not_mem_closings hClosed _ hWaits
        obtain ⟨c, hc, hId, hFor⟩ := mem_closings_iff.1 hWaits
        exact .inl ⟨c, hc, by omega, hFor⟩
      · exact .inr hGiven

/-- Whatever calls to start and to close come in, and however they interleave: a call to start
returns that it is refused exactly if the cache runs when it comes in, and otherwise that it
succeeded or that its refresh failed. Unless a start succeeds that was in progress when another one
did, with no call to close in between, there is one loop at most that has not been told to stop, and
between any two starts that succeed there is a call to close, which has returned if none waits by
then; and exactly then. And in this case, after a call to close that came when all starts had
returned has itself returned without an error, no loop is alive but those for which an earlier call
to close still waits or on which one gave up. -/
theorem loops_of_calls (hMake : make options surroundings clock = .ok first)
    (hRun : first.run source events = some s) :
    (∀ before after m, events = before ++ .start :: after → first.run source before = some m →
      ∀ outcome, (m.fresh, outcome) ∈ s.returned →
        if m.isRunning then outcome = .error (.alreadyStarted options.name)
        else outcome = .ok () ∨
          ∃ reason, outcome = .error (.refreshFailed options.name reason)) ∧
    ((∀ before after m, events = before ++ after → first.run source before = some m →
        ∀ i j, m.Unstopped i → m.Unstopped j → i = j) ↔ ¬Doubles source first events) ∧
    ((∀ i j between m n, Twice source first events i j between m n →
        ∃ timeout, .close timeout ∈ between) ↔ ¬Doubles source first events) ∧
    (¬Doubles source first events →
      (∀ i j between m n, Twice source first events i j between m n → n.closings = [] →
        ∃ early timeout late c outcome, between = early ++ .close timeout :: late ∧
          m.run source early = some c ∧ (c.fresh, outcome) ∈ n.returned) ∧
      ∀ before timeout after m, events = before ++ .close timeout :: after →
        first.run source before = some m → (∀ i, ¬m.Starting i) → .start ∉ after →
        (m.fresh, .ok ()) ∈ s.returned → ∀ t ∈ s.tasks, t.role.isLoop = true →
          (∃ nextTick, t.role = .loop nextTick true) ∧
            ((∃ c ∈ s.closings, c.id < m.fresh ∧ c.loop = t.id) ∨
              GivenUp source first events t.id)) := by
  have hFirst := Fit.of_make hMake
  have hNone : first.worker = none := congrArg Outline.worker (outline_of_make hMake).1
  have hIff : Doubles source first events ↔ Overruns source first events := doubles_iff hFirst hNone
  have hClose : ¬Doubles source first events → ∀ i j between m n,
      Twice source first events i j between m n → ∃ timeout, .close timeout ∈ between := by
    intro hNot i j between m n hTwice
    by_contra hNoClose
    rw [not_exists] at hNoClose
    exact hNot (hIff.2 (hFirst.overruns_of_twice hTwice hNoClose))
  refine ⟨?_, ?_, ⟨?_, hClose⟩, fun hNot => ⟨?_, ?_⟩⟩
  · -- how a start returns is settled when it comes in, but for its refresh
    rintro before after m rfl hM outcome hOutcome
    exact outcome_of_start hMake hM hRun hOutcome
  · rw [hIff]
    exact at_most_one_unstopped_iff hMake hRun
  · -- two starts in each other's time are two starts that succeed
    rintro hAll ⟨i, j, between, m, n, hTwice, -, hNoClose⟩
    obtain ⟨timeout, hMem⟩ := hAll i j between m n hTwice
    exact hNoClose timeout hMem
  · -- the call to close between them either waits or has returned
    intro i j between m n hTwice hWaits
    obtain ⟨timeout, hMem⟩ := hClose hNot i j between m n hTwice
    obtain ⟨early, late, hBetween⟩ := List.append_of_mem hMem
    obtain ⟨before, after, p, q, -, hP, hM, -, hN, -⟩ := hTwice
    have hFit := (hFirst.of_run hP).step hM
    obtain ⟨c, outcome, hC, hReturned⟩ := returned_of_close hFit hBetween hN hWaits
    exact ⟨early, timeout, late, c, outcome, hBetween, hC, hReturned⟩
  · rintro before timeout after m rfl hM hStarting hNoStart hClosed t ht hLoop
    exact looping_after_close hMake (hIff.not.1 hNot) hM hRun hStarting hNoStart hClosed ht hLoop

/-- A cache that is started, started again in vain, and closed. -/
theorem loops_of_calls_started_and_closed :
    let options : CacheOptions := ⟨"cards", .background, 10, 0⟩
    let source : Source String Nat Unit := ⟨.done (.ok ()), fun _ => .done (.ok ())⟩
    let events : List (Event String) :=
      [.start, .enter 0, .work 0, .start, .close 5, .leave 1, .closed 3]
    ∃ first s, make options () ⟨0, 0⟩ = .ok first ∧ first.run source events = some s ∧
      ¬Doubles source first events ∧
      (∀ outcome, (2, outcome) ∈ s.returned → outcome = .error (.alreadyStarted "cards")) ∧
      (∀ before after m, events = before ++ after → first.run source before = some m →
        ∀ i j, m.Unstopped i → m.Unstopped j → i = j) ∧
      ∀ t ∈ s.tasks, t.role.isLoop = false := by
  intro options source events
  obtain ⟨first, m, c, s, hMake, hM, hMFresh, hMRuns, hC, hCFresh, hCTasks, hRun, hReturned,
      hClosings⟩ : ∃ first m c s, make options () ⟨0, 0⟩ = .ok first ∧
        first.run source (events.take 3) = some m ∧ m.fresh = 2 ∧ m.isRunning = true ∧
        first.run source (events.take 4) = some c ∧ c.fresh = 3 ∧ (∀ i, ¬c.Starting i) ∧
        first.run source events = some s ∧ (3, .ok ()) ∈ s.returned ∧ s.closings = [] := by
    simp [options, events, source, make, run, step, task?, begin, enterPhase, putTask, callStart,
      isRunning, isAlive, addWaiting, work, finish, dropTask, release, launch, answer, callClose,
      stop, Starting]
  -- one action ends a refresh, so no two starts succeed
  have hNot : ¬Doubles source first events := by
    rintro ⟨i, j, between, m, n, ⟨before, after, p, q, hEvents, -⟩, -⟩
    classical
    have hCount := congrArg (List.countP fun e => decide (∃ k, e = Event.work k)) hEvents
    simp [events] at hCount
    omega
  obtain ⟨hStarts, hOne, -, hClean⟩ := loops_of_calls hMake hRun
  refine ⟨first, s, hMake, hRun, hNot, fun outcome hOutcome => ?_, hOne.2 hNot, fun t ht => ?_⟩
  · have hRefused := hStarts (events.take 3) (events.drop 4) m rfl hM outcome (hMFresh ▸ hOutcome)
    rwa [if_pos hMRuns] at hRefused
  · by_contra hLoop
    rw [Bool.not_eq_false] at hLoop
    obtain ⟨-, ⟨w, hWaits, -⟩ | ⟨before, after, id, p, hEvents, -⟩⟩ := (hClean hNot).2
      (events.take 4) 5 (events.drop 5) c rfl hC hCTasks (by simp [events])
      (hCFresh ▸ hReturned) t ht hLoop
    · rw [hClosings] at hWaits
      cases hWaits
    · have hMem : Event.giveUp id ∈ events := hEvents ▸ List.mem_append_right _ List.mem_cons_self
      simp [events] at hMem

/-- Two starts that overlap both succeed, and the loop of the first one can no longer be stopped. And
after a call to close that gave up, the next one returns at once while the loop is still alive. -/
theorem not_loops_of_calls :
    let options : CacheOptions := ⟨"cards", .background, 10, 0⟩
    let source : Source String Nat Unit := ⟨.done (.ok ()), fun _ => .done (.ok ())⟩
    let overlapping : List (Event String) :=
      [.start, .start, .enter 0, .work 0, .enter 1, .work 1, .close 5, .leave 3, .closed 4]
    let givenUp : List (Event String) :=
      [.start, .enter 0, .work 0, .pass 10 10, .tick 1, .close 0, .giveUp 2, .close 60]
    ∃ first m s s', make options () ⟨0, 0⟩ = .ok first ∧
      first.run source (overlapping.take 6) = some m ∧ m.Unstopped 2 ∧ m.Unstopped 3 ∧
      first.run source overlapping = some s ∧
      s.returned = [(4, .ok ()), (1, .ok ()), (0, .ok ())] ∧ s.Unstopped 2 ∧
      first.run source givenUp = some s' ∧
      s'.returned = [(3, .ok ()), (2, .error (.shutdownTimeout "cards" 0)), (0, .ok ())] ∧
      s'.isAlive 1 = true := by
  intro options source overlapping givenUp
  simp [options, overlapping, givenUp, source, make, run, step, task?, begin, enterPhase, putTask,
    callStart, isRunning, isAlive, addWaiting, work, finish, dropTask, release, launch, answer,
    callClose, stop, Unstopped, tickAfter, tickTolerance, TimeUnit.nanos, Task.isPast]

end Made

end State

end ItemComposition.Cache
