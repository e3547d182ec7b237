import ItemComposition.Proofs.Cache.RefreshRuns

/-!
# What a refresh writes

A condition on the values of a store is kept by a refresh that writes only values that meet it,
whatever else happens between its actions and wherever it is cut off. `Refresh.Writes` is this
property of a refresh as a tree of actions: each write is of a good value, if each answer of the
store was a good value and each look at the surroundings was at fine ones.

## Key results

- `Refresh.Leads`: some actions of a refresh, to its end or not
- `Refresh.Writes.bind`: one refresh after another
- `Refresh.Writes.holds`: what is in the store after some actions
-/

namespace ItemComposition.Cache

variable {κ ν σ α β : Type} [DecidableEq κ]

/-- An unbounded store of good values only, in fine surroundings. -/
structure Workplace.Holds (fine : σ → Prop) (good : κ → ν → Prop) (w : Workplace κ ν σ) : Prop where
  fine : fine w.surroundings
  good : ∃ store : BackgroundStore κ ν, w.store = .background store ∧
    ∀ e ∈ store.entries, good e.key e.value

theorem BackgroundStore.good_of_get {good : κ → ν → Prop} {store : BackgroundStore κ ν}
    (h : ∀ e ∈ store.entries, good e.key e.value) {key : κ} {value : ν}
    (served : store.get key = some value) : good key value := by
  rw [get, find?, Option.map_eq_some_iff] at served
  obtain ⟨e, hFind, rfl⟩ := served
  have hKey : e.key = key := by simpa using List.find?_some hFind
  exact hKey ▸ h e (List.mem_of_find?_eq_some hFind)

namespace Refresh

variable {fine : σ → Prop} {good : κ → ν → Prop}

/-- Some actions of a refresh lead from one workplace to another. The relation says what may happen
between two actions. -/
inductive Leads (between : Workplace κ ν σ → Workplace κ ν σ → Prop) :
    Refresh κ ν σ α → Workplace κ ν σ → Workplace κ ν σ → Prop
  | stop (r : Refresh κ ν σ α) (w : Workplace κ ν σ) : Leads between r w w
  | act {r : Refresh κ ν σ α} {w w' : Workplace κ ν σ}
      (rest : Leads between (r.step w).1 (r.step w).2 w') : Leads between r w w'
  | wait {r : Refresh κ ν σ α} {w m w' : Workplace κ ν σ} (other : between w m)
      (rest : Leads between r m w') : Leads between r w w'

/-- A run to the end is one way to go. -/
theorem Runs.leads {between : Workplace κ ν σ → Workplace κ ν σ → Prop} {r : Refresh κ ν σ α}
    {w w' : Workplace κ ν σ} {a : α} (h : r.Runs between w a w') : r.Leads between w w' := by
  induction h with
  | done a w => exact .stop _ w
  | act rest ih => exact .act ih
  | wait other rest ih => exact .wait other ih

omit [DecidableEq κ] in
/-- All that a refresh writes is good, as long as it finds fine surroundings and good values. -/
def Writes (fine : σ → Prop) (good : κ → ν → Prop) : Refresh κ ν σ α → Prop
  | .done _ => True
  | .wait _ next => next.Writes fine good
  | .clock next => ∀ c, (next c).Writes fine good
  | .lastUpdated _ next => ∀ t, (next t).Writes fine good
  | .get key next => ∀ found, (∀ v, found = some v → good key v) → (next found).Writes fine good
  | .set key v _ next => good key v ∧ next.Writes fine good
  | .look next => ∀ x, fine x → (next x).Writes fine good
  | .change effect next => (∀ x, fine x → fine (effect x)) ∧ next.Writes fine good

omit [DecidableEq κ] in
theorem Writes.bind {r : Refresh κ ν σ α} {f : α → Refresh κ ν σ β} (h : r.Writes fine good)
    (rest : ∀ a, (f a).Writes fine good) : (r >>= f).Writes fine good := by
  rw [bind_eq_andThen]
  induction r with
  | done a => exact rest a
  | wait d next ih => exact ih h
  | clock next ih => exact fun c => ih c (h c)
  | lastUpdated k next ih => exact fun t => ih t (h t)
  | get k next ih => exact fun found hFound => ih found (h found hFound)
  | set k v t next ih => exact ⟨h.1, ih h.2⟩
  | look next ih => exact fun x hx => ih x (h x hx)
  | change effect next ih => exact ⟨h.1, ih h.2⟩

section Actions

omit [DecidableEq κ]

theorem writes_pure (a : α) : (pure a : Refresh κ ν σ α).Writes fine good := trivial

theorem Writes.readClock {f : Clock → Refresh κ ν σ β} (h : ∀ c, (f c).Writes fine good) :
    (Refresh.readClock >>= f).Writes fine good := h

theorem Writes.readStamp {key : κ} {f : Option Int → Refresh κ ν σ β}
    (h : ∀ t, (f t).Writes fine good) : (Refresh.readStamp key >>= f).Writes fine good := h

theorem Writes.read {key : κ} {f : Option ν → Refresh κ ν σ β}
    (h : ∀ found, (∀ v, found = some v → good key v) → (f found).Writes fine good) :
    (Refresh.read key >>= f).Writes fine good := h

theorem Writes.write {key : κ} {value : ν} {stamp : Int} {f : Unit → Refresh κ ν σ β}
    (hValue : good key value) (h : (f ()).Writes fine good) :
    (Refresh.write key value stamp >>= f).Writes fine good := ⟨hValue, h⟩

theorem Writes.observe {g : σ → α} {f : α → Refresh κ ν σ β}
    (h : ∀ x, fine x → (f (g x)).Writes fine good) :
    (Refresh.observe g >>= f).Writes fine good := h

theorem Writes.alter {effect : σ → σ} {f : Unit → Refresh κ ν σ β}
    (hEffect : ∀ x, fine x → fine (effect x)) (h : (f ()).Writes fine good) :
    (Refresh.alter effect >>= f).Writes fine good := ⟨hEffect, h⟩

end Actions

/-- One action keeps the store good. -/
theorem Writes.step {r : Refresh κ ν σ α} {w : Workplace κ ν σ} (h : r.Writes fine good)
    (hw : w.Holds fine good) :
    (r.step w).1.Writes fine good ∧ (r.step w).2.Holds fine good := by
  obtain ⟨hFine, store, hStore, hGood⟩ := hw
  cases r with
  | done a => exact ⟨h, hFine, store, hStore, hGood⟩
  | wait d next => exact ⟨h, hFine, store, hStore, hGood⟩
  | clock next => exact ⟨h _, hFine, store, hStore, hGood⟩
  | lastUpdated k next => exact ⟨h _, hFine, store, hStore, hGood⟩
  | get k next =>
    simp only [Refresh.step, hStore, Store.get]
    exact ⟨h _ fun v => BackgroundStore.good_of_get hGood, hFine, store, rfl, hGood⟩
  | set k v t next =>
    -- what a set leaves is the entry it wrote and some of those that were there
    refine ⟨h.2, hFine, store.set k v t, by simp only [Refresh.step, hStore, Store.set], ?_⟩
    intro e he
    rcases List.mem_cons.1 he with rfl | he
    · exact h.1
    · exact hGood e (List.mem_filter.1 he).1
  | look next => exact ⟨h _ hFine, hFine, store, hStore, hGood⟩
  | change effect next => exact ⟨h.2, h.1 _ hFine, store, hStore, hGood⟩

/-- Whatever actions of a refresh were taken, the store is good if it was. -/
theorem Writes.holds {between : Workplace κ ν σ → Workplace κ ν σ → Prop} {r : Refresh κ ν σ α}
    {w w' : Workplace κ ν σ} (h : r.Writes fine good)
    (keeps : ∀ w m, between w m → w.Holds fine good → m.Holds fine good)
    (hw : w.Holds fine good) (hLeads : r.Leads between w w') : w'.Holds fine good := by
  induction hLeads with
  | stop r w => exact hw
  | act rest ih => exact ih (h.step hw).1 (h.step hw).2
  | wait other rest ih => exact ih h (keeps _ _ other hw)

end Refresh

end ItemComposition.Cache
