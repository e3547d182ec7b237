import ItemComposition.Proofs.Cache.LruRecency
import ItemComposition.Proofs.Cache.UpdateLock

/-!
# What happens to a cache and around it

Besides the events of a cache its surroundings change by themselves, and a source that is given the
store can sweep it. Of all that happens only calls of the store change the store: what is left of a
store is what it answers to these calls, one after the other. So what a cache serves is found from
the calls alone.

What a source learns from the store other than by looking a key up, such as the number of entries,
counts as told by its surroundings.

## Key results

- `State.happenAll`, `State.calls`: things that happen one after the other, and the calls of the
  store among them
- `State.store_of_happenAll`: what is left of the store
- `State.Refreshing.work_of_set`: while a refresh is in progress, nobody else writes
-/

namespace ItemComposition.Cache

variable {κ ν σ α : Type}

/-- What can happen to a cache or around it. -/
inductive Happening (κ σ : Type) where
  | event (e : Event κ)
  /-- The surroundings change by themselves. -/
  | outside (effect : σ → σ)
  /-- A source that was given the store sweeps it. -/
  | sweep

/-- The call of the store that is the next action of a refresh. -/
def Refresh.call? : Refresh κ ν σ α → Option (StoreCall κ ν)
  | .lastUpdated key _ => some (.lastUpdated key)
  | .get key _ => some (.get key)
  | .set key value stamp _ => some (.set key value stamp)
  | _ => none

variable [DecidableEq κ]

/-- A store of either policy answers a call. -/
def Store.answer (s : Store κ ν) (now : Int) : StoreCall κ ν → Store κ ν × StoreAnswer ν
  | .set key value stamp => (s.set key value stamp, .done)
  | .get key => (s.get key now).map id .value
  | .lastUpdated key => (s, .stamp (s.lastUpdated? key))
  | .cleanUp => (s.cleanUp now).map id .count
  | .size => (s, .count s.size)

omit [DecidableEq κ] in
/-- Calls that are made after others. -/
theorem serve_append {τ : Type} (answer : τ → Int → StoreCall κ ν → τ × StoreAnswer ν) (s : τ)
    (before after : List (Int × StoreCall κ ν)) :
    (serve answer s (before ++ after)).1 = (serve answer (serve answer s before).1 after).1 := by
  induction before generalizing s with
  | nil => rfl
  | cons c before ih => exact ih _

namespace State

variable {source : Source κ ν σ} {s s' : State κ ν σ} {e : Happening κ σ}

/-- The effect of what happens, or `none` when it cannot happen. -/
def happen (source : Source κ ν σ) (s : State κ ν σ) : Happening κ σ → Option (State κ ν σ)
  | .event e => s.step source e
  | .outside effect =>
    some { s with place := { s.place with surroundings := effect s.place.surroundings } }
  | .sweep =>
    some { s with place := { s.place with store := (s.place.store.cleanUp s.place.clock.wall).1 } }

/-- Lets things happen one after the other, if each of them can. -/
def happenAll (source : Source κ ν σ) (s : State κ ν σ) :
    List (Happening κ σ) → Option (State κ ν σ)
  | [] => some s
  | e :: rest => (s.happen source e).bind fun next => happenAll source next rest

omit [DecidableEq κ] in
/-- The call of the store in what happens. -/
def call? (s : State κ ν σ) : Happening κ σ → Option (StoreCall κ ν)
  | .event (.get key) => some (.get key)
  | .event (.sweep _) => some .cleanUp
  | .sweep => some .cleanUp
  | .event (.work id) =>
    match (s.task? id).map Task.phase with
    | some (.refreshing _ _ rest) => rest.call?
    | _ => none
  | _ => none

/-- The calls of the store among what happens, each with the wall clock at that moment. -/
def calls (source : Source κ ν σ) (s : State κ ν σ) :
    List (Happening κ σ) → List (Int × StoreCall κ ν)
  | [] => []
  | e :: rest =>
    ((s.call? e).map fun call => (s.place.clock.wall, call)).toList ++
      match s.happen source e with
      | some next => calls source next rest
      | none => []

/-- What everything that can happen keeps, a course of such things keeps. -/
theorem happenAll_keeps {P : State κ ν σ → Prop}
    (keeps : ∀ s e s', P s → s.happen source e = some s' → P s') (hs : P s)
    {es : List (Happening κ σ)} (h : s.happenAll source es = some s') : P s' := by
  induction es generalizing s with
  | nil =>
    obtain rfl := Option.some.inj h
    exact hs
  | cons e rest ih =>
    rw [happenAll, Option.bind_eq_some_iff] at h
    obtain ⟨next, hNext, hRest⟩ := h
    exact ih (keeps _ _ _ hs hNext) hRest

/-! ## The store -/

omit [DecidableEq κ] in
theorem place_finish (t : Task κ ν σ) (result : Except String Unit) :
    (s.finish t result).place = s.place := by
  cases hLoop : t.role.isLoop with
  | true =>
    rw [finish_loop hLoop]
    rfl
  | false =>
    obtain ⟨outcome, hEnd | hEnd⟩ := finish_call (s := s) hLoop result <;> rw [hEnd] <;> rfl

/-- An action of a task is an action of its refresh. -/
theorem place_work (t : Task κ ν σ) (began : Nat) (rest : Refresh κ ν σ (Except String Unit)) :
    (s.work t began rest).place = (rest.step s.place).2 := by
  cases rest with
  | done result => exact place_finish t result
  | wait | clock | lastUpdated | get | set | look | change => rfl

/-- An action of a refresh changes the store by the call that it makes. -/
theorem store_of_act (rest : Refresh κ ν σ α) (w : Workplace κ ν σ) :
    (rest.step w).2.store =
      (rest.call?.map fun call => (w.store.answer w.clock.wall call).1).getD w.store := by
  cases rest <;> rfl

omit [DecidableEq κ] in
theorem call?_work (h : Orderly s) {t : Task κ ν σ} (ht : t ∈ s.tasks) {began ready : Nat}
    {rest : Refresh κ ν σ (Except String Unit)} (hPhase : t.phase = .refreshing began ready rest) :
    s.call? (.event (.work t.id)) = rest.call? := by
  rw [call?, task?_of_mem h.ids_nodup ht, Option.map_some, hPhase]

/-- Only a call of the store changes it. -/
theorem store_of_happen (h : Orderly s) (hHappen : s.happen source e = some s') :
    s'.place.store = ((s.call? e).map fun call =>
      (s.place.store.answer s.place.clock.wall call).1).getD s.place.store := by
  -- of all events only the work of a task at a call changes the store, and it does what the call
  -- says
  cases e with
  | outside effect =>
    obtain rfl := Option.some.inj hHappen
    rfl
  | sweep =>
    obtain rfl := Option.some.inj hHappen
    rfl
  | event e =>
    have hStep : s.step source e = some s' := hHappen
    cases e with
    | start =>
      obtain rfl := Option.some.inj hStep
      unfold callStart
      split <;> rfl
    | close timeout =>
      obtain rfl := Option.some.inj hStep
      rw [place_callClose]
      rfl
    | update key | get key =>
      obtain rfl := Option.some.inj hStep
      rfl
    | enter id =>
      obtain ⟨t, -, -, -, -, rfl⟩ := step_enter hStep
      rfl
    | work id =>
      obtain ⟨t, ht, rfl, began, ready, rest, hPhase, -, rfl⟩ := step_work hStep
      rw [call?_work h ht hPhase, place_work, store_of_act]
    | cutOff id =>
      obtain ⟨t, -, -, -, rfl⟩ := step_cutOff hStep
      rfl
    | sweep id =>
      obtain ⟨t, -, -, -, rfl⟩ := step_sweep hStep
      rfl
    | tick id =>
      obtain ⟨t, -, -, -, nextTick, -, -, rfl⟩ := step_tick hStep
      rfl
    | leave id =>
      obtain ⟨t, -, -, -, -, rfl⟩ := step_leave hStep
      rfl
    | closed id =>
      obtain ⟨c, -, -, -, rfl⟩ := step_closed hStep
      rfl
    | giveUp id =>
      obtain ⟨c, -, -, -, rfl⟩ := step_giveUp hStep
      rfl
    | pass duration wall =>
      obtain ⟨-, rfl⟩ := step_pass hStep
      rfl

/-- What happens around a cache does not touch its tasks. -/
theorem Orderly.happen (h : Orderly s) (hHappen : s.happen source e = some s') : Orderly s' := by
  cases e with
  | event e => exact h.step hHappen
  | outside effect =>
    obtain rfl := Option.some.inj hHappen
    exact h.of_eq rfl rfl (Nat.le_refl _)
  | sweep =>
    obtain rfl := Option.some.inj hHappen
    exact h.of_eq rfl rfl (Nat.le_refl _)

theorem Orderly.happenAll (h : Orderly s) {es : List (Happening κ σ)}
    (hAll : s.happenAll source es = some s') : Orderly s' :=
  happenAll_keeps (fun _ _ _ hs hHappen => hs.happen hHappen) h hAll

/-- What is left of the store is what the calls of it leave. -/
theorem store_of_happenAll (h : Orderly s) {es : List (Happening κ σ)}
    (hAll : s.happenAll source es = some s') :
    s'.place.store = (serve Store.answer s.place.store (s.calls source es)).1 := by
  -- along the happenings; each one adds at most one call to those that are served
  induction es generalizing s with
  | nil =>
    obtain rfl := Option.some.inj hAll
    rfl
  | cons e rest ih =>
    rw [State.happenAll, Option.bind_eq_some_iff] at hAll
    obtain ⟨next, hNext, hRest⟩ := hAll
    have hStore := store_of_happen h hNext
    simp only [calls, hNext, serve_append]
    rw [ih (h.happen hNext) hRest, hStore]
    cases s.call? e <;> rfl

/-! ## While a refresh is in progress -/

omit [DecidableEq κ] in
/-- A task is in a refresh. -/
def Refreshing (s : State κ ν σ) (id : Nat) : Prop :=
  ∃ t ∈ s.tasks, t.id = id ∧ t.began?.isSome = true

/-- A condition holds before each of the things that happen. -/
def Throughout (source : Source κ ν σ) (P : State κ ν σ → Prop) :
    State κ ν σ → List (Happening κ σ) → Prop
  | _, [] => True
  | s, e :: rest => P s ∧ ∀ next, s.happen source e = some next → Throughout source P next rest

/-- A write during a refresh is one of its actions. -/
theorem Refreshing.work_of_set (h : Orderly s) {id : Nat} (refreshing : s.Refreshing id)
    (hHappen : s.happen source e = some s') {key : κ} {value : ν} {stamp : Int}
    (hCall : s.call? e = some (.set key value stamp)) : e = .event (.work id) := by
  obtain ⟨t, ht, rfl, hBegan⟩ := refreshing
  obtain ⟨b, hb⟩ := Option.isSome_iff_exists.1 hBegan
  cases e with
  | outside | sweep => cases hCall
  | event e =>
    cases e with
    | work other =>
      have hStep : s.step source (.work other) = some s' := hHappen
      obtain ⟨u, hu, rfl, began, ready, rest, hPhase, -, -⟩ := step_work hStep
      -- only one task is in a refresh
      have hSame : u = t := h.eq_of_isWorking hu ht (by rw [hPhase]; rfl) (isWorking_of_began? hb)
      rw [hSame]
    | _ => cases hCall

end State

end ItemComposition.Cache
