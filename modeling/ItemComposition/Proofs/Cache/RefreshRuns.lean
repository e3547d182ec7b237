import ItemComposition.Cache.Refresh
import Mathlib.Logic.Relation

/-!
# Refreshes while something else happens

A refresh taken one action at a time leaves room between its actions: time passes, and others may
act. What may happen there is a relation on workplaces; `Refresh.Runs` is the refresh run to its
end with such steps in between. A run of two refreshes in a row splits into their runs, and a run
of a single action tells what it saw.

## Key results

- `Refresh.Runs.bind`: a run of one refresh after another
- `Refresh.Runs.next`: the first action of a run, and the rest; `Refresh.Runs.readClock` and so on for
  each kind of action
- `Refresh.runs_run`: without anything in between
-/

namespace ItemComposition.Cache

variable {κ ν σ α β : Type}

/-- Only time passes. -/
structure Workplace.Elapses (w m : Workplace κ ν σ) : Prop where
  now : w.clock.now ≤ m.clock.now
  wall : w.clock.wall ≤ m.clock.wall
  surroundings : m.surroundings = w.surroundings
  store : m.store = w.store

theorem Workplace.Elapses.refl (w : Workplace κ ν σ) : w.Elapses w :=
  ⟨Nat.le_refl _, Int.le_refl _, rfl, rfl⟩

theorem Workplace.Elapses.trans {w m n : Workplace κ ν σ} (h : w.Elapses m) (h' : m.Elapses n) :
    w.Elapses n :=
  ⟨Nat.le_trans h.now h'.now, Int.le_trans h.wall h'.wall, h'.surroundings.trans h.surroundings,
    h'.store.trans h.store⟩

/-- Passing time adds up. -/
theorem Workplace.reflTransGen_elapses {w m : Workplace κ ν σ} :
    Relation.ReflTransGen Elapses w m ↔ w.Elapses m := by
  refine ⟨fun h => ?_, .single⟩
  induction h with
  | refl => exact .refl w
  | tail _ hLast ih => exact ih.trans hLast

namespace Refresh

variable [DecidableEq κ]

/-- A refresh taken from a workplace to its end, with an answer and the workplace at the end. The
relation says what may happen between two actions. -/
inductive Runs (between : Workplace κ ν σ → Workplace κ ν σ → Prop) :
    Refresh κ ν σ α → Workplace κ ν σ → α → Workplace κ ν σ → Prop
  | done (a : α) (w : Workplace κ ν σ) : Runs between (.done a) w a w
  | act {r : Refresh κ ν σ α} {w w' : Workplace κ ν σ} {a : α}
      (rest : Runs between (r.step w).1 (r.step w).2 a w') : Runs between r w a w'
  | wait {r : Refresh κ ν σ α} {w m w' : Workplace κ ν σ} {a : α} (other : between w m)
      (rest : Runs between r m a w') : Runs between r w a w'

variable {between : Workplace κ ν σ → Workplace κ ν σ → Prop} {w w' : Workplace κ ν σ}

/-- Nothing is left to do of a refresh that is over. -/
theorem Runs.of_done {a b : α} (h : (Refresh.done a).Runs between w b w') :
    b = a ∧ Relation.ReflTransGen between w w' := by
  generalize hDone : Refresh.done a = r at h
  induction h with
  | done c w =>
    cases hDone
    exact ⟨rfl, .refl⟩
  | act rest ih =>
    subst hDone
    exact ih rfl
  | wait other rest ih => exact ⟨(ih hDone).1, .head other (ih hDone).2⟩

/-- The first action of a run is taken when something else may have happened. -/
theorem Runs.next {r : Refresh κ ν σ α} {a : α} (h : r.Runs between w a w') :
    ∃ m, Relation.ReflTransGen between w m ∧ (r.step m).1.Runs between (r.step m).2 a w' := by
  induction h with
  | done a w => exact ⟨w, .refl, .done a w⟩
  | act rest => exact ⟨_, .refl, rest⟩
  | wait other rest ih =>
    obtain ⟨m, hOthers, hRest⟩ := ih
    exact ⟨m, .head other hOthers, hRest⟩

section Actions

variable {b : β}

theorem Runs.readClock {f : Clock → Refresh κ ν σ β}
    (h : (Refresh.readClock >>= f).Runs between w b w') :
    ∃ m, Relation.ReflTransGen between w m ∧ (f m.clock).Runs between m b w' := h.next

theorem Runs.readStamp {key : κ} {f : Option Int → Refresh κ ν σ β}
    (h : (Refresh.readStamp key >>= f).Runs between w b w') :
    ∃ m, Relation.ReflTransGen between w m ∧
      (f (m.store.lastUpdated? key)).Runs between m b w' := h.next

theorem Runs.read {key : κ} {f : Option ν → Refresh κ ν σ β}
    (h : (Refresh.read key >>= f).Runs between w b w') :
    ∃ m, Relation.ReflTransGen between w m ∧
      (f (m.store.get key m.clock.wall).2).Runs between
        { m with store := (m.store.get key m.clock.wall).1 } b w' := h.next

theorem Runs.write {key : κ} {value : ν} {stamp : Int} {f : Unit → Refresh κ ν σ β}
    (h : (Refresh.write key value stamp >>= f).Runs between w b w') :
    ∃ m, Relation.ReflTransGen between w m ∧
      (f ()).Runs between { m with store := m.store.set key value stamp } b w' := h.next

theorem Runs.observe {g : σ → α} {f : α → Refresh κ ν σ β}
    (h : (Refresh.observe g >>= f).Runs between w b w') :
    ∃ m, Relation.ReflTransGen between w m ∧ (f (g m.surroundings)).Runs between m b w' := h.next

theorem Runs.alter {effect : σ → σ} {f : Unit → Refresh κ ν σ β}
    (h : (Refresh.alter effect >>= f).Runs between w b w') :
    ∃ m, Relation.ReflTransGen between w m ∧
      (f ()).Runs between { m with surroundings := effect m.surroundings } b w' := h.next

end Actions

/-- A run of one refresh after another is a run of the one, and from where it ends a run of the
other. -/
theorem Runs.bind {r : Refresh κ ν σ α} {f : α → Refresh κ ν σ β} {b : β}
    (h : (r >>= f).Runs between w b w') :
    ∃ a m, r.Runs between w a m ∧ (f a).Runs between m b w' := by
  rw [bind_eq_andThen] at h
  generalize hBoth : r.andThen f = q at h
  induction h generalizing r with
  | done c w =>
    -- only where the first refresh is over, both can be
    cases r with
    | done a =>
      have hSame : f a = .done c := hBoth
      exact ⟨a, _, .done a _, hSame ▸ .done c _⟩
    | wait | clock | lastUpdated | get | set | look | change => cases hBoth
  | wait other rest ih =>
    obtain ⟨a, m, hFirst, hSecond⟩ := ih hBoth
    exact ⟨a, m, .wait other hFirst, hSecond⟩
  | act rest ih =>
    cases r with
    | done a =>
      have hSame : f a = _ := hBoth
      exact ⟨a, _, .done a _, hSame ▸ .act rest⟩
    | wait | clock | lastUpdated | get | set | look | change =>
      subst hBoth
      obtain ⟨a, m, hFirst, hSecond⟩ := ih rfl
      exact ⟨a, m, .act hFirst, hSecond⟩

/-- Whatever may happen, it need not. -/
theorem runs_run (between : Workplace κ ν σ → Workplace κ ν σ → Prop) (r : Refresh κ ν σ α)
    (w : Workplace κ ν σ) : r.Runs between w (r.run w).1 (r.run w).2 := by
  induction r generalizing w with
  | done a => exact .done a w
  | wait d next ih => exact .act (ih w)
  | clock next ih => exact .act (ih _ w)
  | lastUpdated k next ih => exact .act (ih _ w)
  | get k next ih => exact .act (ih _ _)
  | set k v t next ih => exact .act (ih _)
  | look next ih => exact .act (ih _ w)
  | change effect next ih => exact .act (ih _)

theorem runs_of_run {between : Workplace κ ν σ → Workplace κ ν σ → Prop} {r : Refresh κ ν σ α}
    {w w' : Workplace κ ν σ} {a : α} (h : r.run w = (a, w')) : r.Runs between w a w' := by
  have hRun := runs_run between r w
  rwa [h] at hRun

end Refresh

end ItemComposition.Cache
