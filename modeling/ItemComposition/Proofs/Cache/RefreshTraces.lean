import ItemComposition.Proofs.Cache.RefreshRuns

/-!
# Runs of a refresh with their traces

The trace of a run lists its actions, each by what was left to do when it was taken and by the
workplace at that moment. So the moments at which the parts of a refresh began are known, and with
them the times that its looks at the clock saw.

## Key results

- `Refresh.Begins`, `Refresh.Within`: when a part of a refresh begins, also as a part of a longer one
- `Refresh.RunsVia`: a run and its trace; `RunsVia.runs` and `exists_runsVia` to and from `Runs`
- `RunsVia.bind`: the trace of one refresh after another
- `RunsVia.next`: the first action; `RunsVia.readClock` and so on for each kind of action
- `RunsVia.wall_mem`: the time at the moments of a trace
-/

namespace ItemComposition.Cache

variable {κ ν σ α β γ : Type}

namespace Refresh

/-- The actions of a run: what was left to do, and the workplace. -/
abbrev Trace (κ ν σ α : Type) := List (Refresh κ ν σ α × Workplace κ ν σ)

/-- Nothing is left to do. -/
def isDone : Refresh κ ν σ α → Bool
  | .done _ => true
  | _ => false

theorem bind_assoc (r : Refresh κ ν σ α) (f : α → Refresh κ ν σ β) (g : β → Refresh κ ν σ γ) :
    r >>= f >>= g = r >>= fun a => f a >>= g := by
  simp only [bind_eq_andThen]
  induction r with
  | done a => rfl
  | wait d next ih => simp only [andThen, ih]
  | clock next ih => simp only [andThen, ih]
  | lastUpdated k next ih => simp only [andThen, ih]
  | get k next ih => simp only [andThen, ih]
  | set k v t next ih => simp only [andThen, ih]
  | look next ih => simp only [andThen, ih]
  | change effect next ih => simp only [andThen, ih]

theorem bind_done (r : Refresh κ ν σ α) : r >>= Refresh.done = r := by
  rw [bind_eq_andThen]
  induction r with
  | done a => rfl
  | wait d next ih => simp only [andThen, ih]
  | clock next ih => simp only [andThen, ih]
  | lastUpdated k next ih => simp only [andThen, ih]
  | get k next ih => simp only [andThen, ih]
  | set k v t next ih => simp only [andThen, ih]
  | look next ih => simp only [andThen, ih]
  | change effect next ih => simp only [andThen, ih]

/-- A part of a refresh begins at a moment: its first action is taken there. -/
def Begins (trace : Trace κ ν σ α) (part : Refresh κ ν σ β) (m : Workplace κ ν σ) : Prop :=
  ∃ rest : β → Refresh κ ν σ α, (part >>= rest, m) ∈ trace

theorem begins_of_bind {trace : Trace κ ν σ α} {part : Refresh κ ν σ β}
    {rest : β → Refresh κ ν σ α} {m : Workplace κ ν σ} (h : (part >>= rest, m) ∈ trace) :
    Begins trace part m := ⟨rest, h⟩

/-- What is left to do begins as a whole. -/
theorem begins_of_mem {trace : Trace κ ν σ α} {r : Refresh κ ν σ α} {m : Workplace κ ν σ}
    (h : (r, m) ∈ trace) : Begins trace r m := by
  refine ⟨.done, ?_⟩
  rw [bind_done]
  exact h

/-- The trace of a refresh that is followed by another one. -/
def Trace.before (f : α → Refresh κ ν σ β) (trace : Trace κ ν σ α) : Trace κ ν σ β :=
  trace.map fun q => (q.1 >>= f, q.2)

/-- The parts that begin in the one run begin in the other at the same moments. -/
def Within (trace : Trace κ ν σ α) (whole : Trace κ ν σ β) : Prop :=
  ∀ (γ : Type) (part : Refresh κ ν σ γ) (m : Workplace κ ν σ), Begins trace part m →
    Begins whole part m

theorem within_of_subset {trace whole : Trace κ ν σ α} (h : ∀ q ∈ trace, q ∈ whole) :
    Within trace whole := by
  rintro γ part m ⟨rest, hMem⟩
  exact ⟨rest, h _ hMem⟩

theorem within_before (trace : Trace κ ν σ α) (f : α → Refresh κ ν σ β) :
    Within trace (trace.before f) := by
  rintro γ part m ⟨rest, hMem⟩
  refine ⟨fun b => rest b >>= f, ?_⟩
  rw [← bind_assoc]
  exact List.mem_map.2 ⟨_, hMem, rfl⟩

/-- What is taken after the first action is taken in the whole run. -/
theorem within_of_cons {trace rest : Trace κ ν σ α} {q : Refresh κ ν σ α × Workplace κ ν σ}
    (h : trace = q :: rest) : Within rest trace :=
  within_of_subset fun _ hIn => h ▸ List.mem_cons_of_mem _ hIn

section

variable {first : Trace κ ν σ α} {second whole : Trace κ ν σ β} {f : α → Refresh κ ν σ β}

theorem within_of_append_left (h : whole = first.before f ++ second) : Within first whole := by
  rintro γ part m hBegins
  obtain ⟨rest, hMem⟩ := within_before first f γ part m hBegins
  exact ⟨rest, h ▸ List.mem_append_left _ hMem⟩

theorem within_of_append_right (h : whole = first.before f ++ second) : Within second whole :=
  within_of_subset fun _ hIn => h ▸ List.mem_append_right _ hIn

end

theorem Within.trans {first : Trace κ ν σ α} {second : Trace κ ν σ β} {third : Trace κ ν σ γ}
    (h : Within first second) (h' : Within second third) : Within first third :=
  fun δ part m hBegins => h' δ part m (h δ part m hBegins)

variable [DecidableEq κ]

/-- A refresh taken from a workplace to its end, with the actions that were taken, an answer and the
workplace at the end. The relation says what may happen between two actions. -/
inductive RunsVia (between : Workplace κ ν σ → Workplace κ ν σ → Prop) :
    Refresh κ ν σ α → Workplace κ ν σ → Trace κ ν σ α → α → Workplace κ ν σ → Prop
  | done (a : α) (w : Workplace κ ν σ) : RunsVia between (.done a) w [] a w
  | act {r : Refresh κ ν σ α} {w w' : Workplace κ ν σ} {trace : Trace κ ν σ α} {a : α}
      (more : r.isDone = false) (rest : RunsVia between (r.step w).1 (r.step w).2 trace a w') :
      RunsVia between r w ((r, w) :: trace) a w'
  | wait {r : Refresh κ ν σ α} {w m w' : Workplace κ ν σ} {trace : Trace κ ν σ α} {a : α}
      (other : between w m) (rest : RunsVia between r m trace a w') : RunsVia between r w trace a w'

variable {between : Workplace κ ν σ → Workplace κ ν σ → Prop} {w w' : Workplace κ ν σ}

theorem RunsVia.runs {r : Refresh κ ν σ α} {trace : Trace κ ν σ α} {a : α}
    (h : r.RunsVia between w trace a w') : r.Runs between w a w' := by
  induction h with
  | done a w => exact .done a w
  | act more rest ih => exact .act ih
  | wait other rest ih => exact .wait other ih

/-- Every run has a trace. -/
theorem exists_runsVia {r : Refresh κ ν σ α} {a : α} (h : r.Runs between w a w') :
    ∃ trace, r.RunsVia between w trace a w' := by
  induction h with
  | done a w => exact ⟨[], .done a w⟩
  | @act r w w' a rest ih =>
    obtain ⟨trace, hRest⟩ := ih
    cases hDone : r.isDone with
    | false => exact ⟨_, .act hDone hRest⟩
    -- an act of a refresh that is done changes nothing and is not listed
    | true =>
      cases r with
      | done b => exact ⟨trace, hRest⟩
      | wait | clock | lastUpdated | get | set | look | change => cases hDone
  | wait other rest ih =>
    obtain ⟨trace, hRest⟩ := ih
    exact ⟨trace, .wait other hRest⟩

theorem RunsVia.of_done {a b : α} {trace : Trace κ ν σ α}
    (h : (Refresh.done a).RunsVia between w trace b w') :
    b = a ∧ trace = [] ∧ Relation.ReflTransGen between w w' := by
  -- a refresh that is done cannot act, so only waits are left
  generalize hDone : Refresh.done a = r at h
  induction h with
  | done c w =>
    cases hDone
    exact ⟨rfl, rfl, .refl⟩
  | act more rest ih =>
    rw [← hDone] at more
    cases more
  | wait other rest ih =>
    obtain ⟨hAnswer, hTrace, hOthers⟩ := ih hDone
    exact ⟨hAnswer, hTrace, .head other hOthers⟩

/-- The first action of a run is taken when something else may have happened. -/
theorem RunsVia.next {r : Refresh κ ν σ α} {a : α} {trace : Trace κ ν σ α}
    (h : r.RunsVia between w trace a w') (more : r.isDone = false) :
    ∃ m rest, Relation.ReflTransGen between w m ∧ trace = (r, m) :: rest ∧
      (r.step m).1.RunsVia between (r.step m).2 rest a w' := by
  induction h with
  | done a w => cases more
  | act _ rest => exact ⟨_, _, .refl, rfl, rest⟩
  | wait other rest ih =>
    obtain ⟨m, others, hOthers, hTrace, hRest⟩ := ih more
    exact ⟨m, others, .head other hOthers, hTrace, hRest⟩

/-- A run of one refresh after another is a run of the one, and from where it ends a run of the
other. -/
theorem RunsVia.bind {r : Refresh κ ν σ α} {f : α → Refresh κ ν σ β} {b : β}
    {trace : Trace κ ν σ β} (h : (r >>= f).RunsVia between w trace b w') :
    ∃ a m first second, r.RunsVia between w first a m ∧ (f a).RunsVia between m second b w' ∧
      trace = first.before f ++ second := by
  rw [bind_eq_andThen] at h
  generalize hBoth : r.andThen f = q at h
  induction h generalizing r with
  | done c w =>
    -- only where the first refresh is over, both can be
    cases r with
    | done a =>
      have hSame : f a = .done c := hBoth
      exact ⟨a, _, [], [], .done a _, hSame ▸ .done c _, rfl⟩
    | wait | clock | lastUpdated | get | set | look | change => cases hBoth
  | wait other rest ih =>
    obtain ⟨a, m, first, second, hFirst, hSecond, hTrace⟩ := ih hBoth
    exact ⟨a, m, first, second, .wait other hFirst, hSecond, hTrace⟩
  | @act q w w' trace b more rest ih =>
    cases r with
    | done a =>
      obtain rfl : f a = q := hBoth
      exact ⟨a, w, [], _, .done a _, .act more rest, rfl⟩
    | wait | clock | lastUpdated | get | set | look | change =>
      subst hBoth
      obtain ⟨a, m, first, second, hFirst, hSecond, rfl⟩ := ih rfl
      exact ⟨a, m, _ :: first, second, .act rfl hFirst, hSecond, rfl⟩

section Actions

variable {b : β} {trace : Trace κ ν σ β}

theorem RunsVia.readClock {f : Clock → Refresh κ ν σ β}
    (h : (Refresh.readClock >>= f).RunsVia between w trace b w') :
    ∃ m rest, Relation.ReflTransGen between w m ∧ trace = (Refresh.readClock >>= f, m) :: rest ∧
      (f m.clock).RunsVia between m rest b w' := h.next rfl

theorem RunsVia.readStamp {key : κ} {f : Option Int → Refresh κ ν σ β}
    (h : (Refresh.readStamp key >>= f).RunsVia between w trace b w') :
    ∃ m rest, Relation.ReflTransGen between w m ∧ trace = (Refresh.readStamp key >>= f, m) :: rest ∧
      (f (m.store.lastUpdated? key)).RunsVia between m rest b w' := h.next rfl

theorem RunsVia.read {key : κ} {f : Option ν → Refresh κ ν σ β}
    (h : (Refresh.read key >>= f).RunsVia between w trace b w') :
    ∃ m rest, Relation.ReflTransGen between w m ∧ trace = (Refresh.read key >>= f, m) :: rest ∧
      (f (m.store.get key m.clock.wall).2).RunsVia between
        { m with store := (m.store.get key m.clock.wall).1 } rest b w' := h.next rfl

theorem RunsVia.write {key : κ} {value : ν} {stamp : Int} {f : Unit → Refresh κ ν σ β}
    (h : (Refresh.write key value stamp >>= f).RunsVia between w trace b w') :
    ∃ m rest, Relation.ReflTransGen between w m ∧
      trace = (Refresh.write key value stamp >>= f, m) :: rest ∧
      (f ()).RunsVia between { m with store := m.store.set key value stamp } rest b w' := h.next rfl

theorem RunsVia.observe {g : σ → α} {f : α → Refresh κ ν σ β}
    (h : (Refresh.observe g >>= f).RunsVia between w trace b w') :
    ∃ m rest, Relation.ReflTransGen between w m ∧ trace = (Refresh.observe g >>= f, m) :: rest ∧
      (f (g m.surroundings)).RunsVia between m rest b w' := h.next rfl

theorem RunsVia.alter {effect : σ → σ} {f : Unit → Refresh κ ν σ β}
    (h : (Refresh.alter effect >>= f).RunsVia between w trace b w') :
    ∃ m rest, Relation.ReflTransGen between w m ∧ trace = (Refresh.alter effect >>= f, m) :: rest ∧
      (f ()).RunsVia between { m with surroundings := effect m.surroundings } rest b w' :=
  h.next rfl

end Actions

/-! ## Time -/

theorem clock_step (r : Refresh κ ν σ α) (w : Workplace κ ν σ) :
    (r.step w).2.clock = w.clock := by
  cases r <;> rfl

/-- No action puts the wall clock back. -/
theorem RunsVia.wall_le {r : Refresh κ ν σ α} {trace : Trace κ ν σ α} {a : α}
    (h : r.RunsVia Workplace.Elapses w trace a w') : w.clock.wall ≤ w'.clock.wall := by
  induction h with
  | done a w => exact Int.le_refl _
  | @act r w w' trace a more rest ih =>
    rw [clock_step] at ih
    exact ih
  | wait other rest ih => exact Int.le_trans other.wall ih

/-- All moments of a trace are between the start and the end of the run. -/
theorem RunsVia.wall_mem {r : Refresh κ ν σ α} {trace : Trace κ ν σ α} {a : α}
    (h : r.RunsVia Workplace.Elapses w trace a w') {q : Refresh κ ν σ α × Workplace κ ν σ}
    (hq : q ∈ trace) : w.clock.wall ≤ q.2.clock.wall ∧ q.2.clock.wall ≤ w'.clock.wall := by
  induction h with
  | done a w => cases hq
  -- the act is at the time the step began, and only waits let time pass
  | @act r w w' trace a more rest ih =>
    rw [clock_step] at ih
    rcases List.mem_cons.1 hq with rfl | hq
    · have hEnd := rest.wall_le
      rw [clock_step] at hEnd
      exact ⟨Int.le_refl _, hEnd⟩
    · exact ih hq
  | wait other rest ih =>
    obtain ⟨hStart, hEnd⟩ := ih hq
    exact ⟨Int.le_trans other.wall hStart, hEnd⟩

end Refresh

end ItemComposition.Cache
