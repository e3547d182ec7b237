import ItemComposition.Cache.Refresh

/-!
# Refreshes while others are at work

What others may do between two actions of a refresh can depend on how far the refresh has got. A
refresh is guarded if, whatever they do, its actions keep an invariant and its end is as it should
be; before each action the invariant may be relied on. Guarded refreshes in a row are guarded, so
that a refresh is dealt with in the parts that it is written in.

What is singled out of how far a refresh has got is whether a key is about to be stamped anew: from
the decision to do so up to the moment that the time of the stamp is taken.

## Key results

- `Guarded.bind`: one refresh after another; `Guarded.readClock` and so on for each kind of action
- `Guarded.step`: one action; `Guarded.of_done`: the end
- `Refresh.Spares`: refreshes that leave a key alone
-/

namespace ItemComposition.Cache

variable {κ ν σ α β : Type}

namespace Refresh

/-- A key is about to be stamped anew: what is next is to look it up and to store what was found
under the time of then. -/
def Restamps (key : κ) : Refresh κ ν σ α → Prop
  | .get wanted _ => wanted = key
  | .clock next => ∃ value rest, ∀ c, next c = .set key value c.wall rest
  | _ => False

theorem Restamps.bind {key : κ} {r : Refresh κ ν σ α} (h : r.Restamps key)
    (f : α → Refresh κ ν σ β) : (r >>= f).Restamps key := by
  cases r with
  | get wanted next => exact h
  | clock next =>
    obtain ⟨value, rest, hNext⟩ := h
    refine ⟨value, rest.andThen f, fun c => ?_⟩
    show (next c).andThen f = _
    rw [hNext]
    rfl
  | done | wait | lastUpdated | set | look | change => exact h.elim

/-- Writes under other keys only, and changes the surroundings only as a relation allows. -/
def Spares (key : κ) (same : σ → σ → Prop) : Refresh κ ν σ α → Prop
  | .done _ => True
  | .wait _ next => next.Spares key same
  | .clock next => ∀ c, (next c).Spares key same
  | .lastUpdated _ next => ∀ t, (next t).Spares key same
  | .get _ next => ∀ found, (next found).Spares key same
  | .set k _ _ next => k ≠ key ∧ next.Spares key same
  | .look next => ∀ x, (next x).Spares key same
  | .change effect next => (∀ x, same x (effect x)) ∧ next.Spares key same

theorem Spares.bind {key : κ} {same : σ → σ → Prop} {r : Refresh κ ν σ α}
    {f : α → Refresh κ ν σ β} (h : r.Spares key same) (rest : ∀ a, (f a).Spares key same) :
    (r >>= f).Spares key same := by
  rw [bind_eq_andThen]
  induction r with
  | done a => exact rest a
  | wait d next ih => exact ih h
  | clock next ih => exact fun c => ih c (h c)
  | lastUpdated k next ih => exact fun t => ih t (h t)
  | get k next ih => exact fun found => ih found (h found)
  | set k v t next ih => exact ⟨h.1, ih h.2⟩
  | look next ih => exact fun x => ih x (h x)
  | change effect next ih => exact ⟨h.1, ih h.2⟩

section Actions

variable {key : κ} {same : σ → σ → Prop}

theorem spares_pure (a : α) : (pure a : Refresh κ ν σ α).Spares key same := trivial

theorem Spares.readClock {f : Clock → Refresh κ ν σ β} (h : ∀ c, (f c).Spares key same) :
    (Refresh.readClock >>= f).Spares key same := h

theorem Spares.readStamp {other : κ} {f : Option Int → Refresh κ ν σ β}
    (h : ∀ t, (f t).Spares key same) : (Refresh.readStamp other >>= f).Spares key same := h

theorem Spares.read {other : κ} {f : Option ν → Refresh κ ν σ β}
    (h : ∀ found, (f found).Spares key same) : (Refresh.read other >>= f).Spares key same := h

theorem Spares.write {other : κ} {value : ν} {stamp : Int} {f : Unit → Refresh κ ν σ β}
    (hne : other ≠ key) (h : (f ()).Spares key same) :
    (Refresh.write other value stamp >>= f).Spares key same := ⟨hne, h⟩

theorem Spares.observe {g : σ → α} {f : α → Refresh κ ν σ β} (h : ∀ x, (f (g x)).Spares key same) :
    (Refresh.observe g >>= f).Spares key same := h

theorem Spares.alter {effect : σ → σ} {f : Unit → Refresh κ ν σ β}
    (hEffect : ∀ x, same x (effect x)) (h : (f ()).Spares key same) :
    (Refresh.alter effect >>= f).Spares key same := ⟨hEffect, h⟩

end Actions

end Refresh

/-- What others may do between the actions of a refresh: some things at any time, and more while a
key is not about to be stamped anew. -/
structure Others (κ ν σ : Type) where
  key : κ
  calm : Workplace κ ν σ → Workplace κ ν σ → Prop
  rough : Workplace κ ν σ → Workplace κ ν σ → Prop
  calm_refl : ∀ w, calm w w
  calm_trans : ∀ {w m n}, calm w m → calm m n → calm w n
  rough_of_calm : ∀ {w m}, calm w m → rough w m
  rough_trans : ∀ {w m n}, rough w m → rough m n → rough w n

namespace Others

variable (o : Others κ ν σ)

/-- What others may do before the first action of a refresh. -/
def May (r : Refresh κ ν σ α) (w m : Workplace κ ν σ) : Prop :=
  o.calm w m ∨ ¬ r.Restamps o.key ∧ o.rough w m

variable {o} {r : Refresh κ ν σ α} {w m n : Workplace κ ν σ}

theorem May.refl : o.May r w w := .inl (o.calm_refl w)

theorem May.rough (h : o.May r w m) : o.rough w m := h.elim o.rough_of_calm And.right

theorem May.trans (h : o.May r w m) (h' : o.May r m n) : o.May r w n := by
  rcases h with hCalm | ⟨hNot, hRough⟩
  · rcases h' with hCalm' | ⟨hNot, hRough⟩
    · exact .inl (o.calm_trans hCalm hCalm')
    · exact .inr ⟨hNot, o.rough_trans (o.rough_of_calm hCalm) hRough⟩
  · exact .inr ⟨hNot, o.rough_trans hRough h'.rough⟩

/-- Nothing but what may happen at any time happens while the key is about to be stamped anew. -/
theorem May.calm (h : o.May r w m) (restamps : r.Restamps o.key) : o.calm w m :=
  h.resolve_right fun hNot => hNot.1 restamps

/-- What may happen before a refresh and what follows it may happen before this refresh alone. -/
theorem May.of_bind {f : α → Refresh κ ν σ β} (h : o.May (r >>= f) w m) : o.May r w m :=
  h.imp_right fun hNot => ⟨fun hRestamps => hNot.1 (hRestamps.bind f), hNot.2⟩

end Others

variable [DecidableEq κ]

/-- Whatever others do in between, the actions of a refresh from a workplace on keep the invariant,
and its end meets the condition. -/
inductive Guarded (o : Others κ ν σ) (inv : Workplace κ ν σ → Prop)
    (post : α → Workplace κ ν σ → Prop) : Refresh κ ν σ α → Workplace κ ν σ → Prop
  | done {a : α} {w : Workplace κ ν σ}
    (met : ∀ m, o.May (.done a : Refresh κ ν σ α) w m → inv m → post a m) :
    Guarded o inv post (.done a) w
  | act {r : Refresh κ ν σ α} {w : Workplace κ ν σ}
    (keeps : ∀ m, o.May r w m → inv m → inv (r.step m).2)
    (rest : ∀ m, o.May r w m → inv m → Guarded o inv post (r.step m).1 (r.step m).2) :
    Guarded o inv post r w

namespace Guarded

variable {o : Others κ ν σ} {inv : Workplace κ ν σ → Prop}
variable {post : α → Workplace κ ν σ → Prop} {next : β → Workplace κ ν σ → Prop}
variable {r : Refresh κ ν σ α} {w m : Workplace κ ν σ}

theorem imp {post' : α → Workplace κ ν σ → Prop} (h : Guarded o inv post r w)
    (weaker : ∀ a m, post a m → post' a m) : Guarded o inv post' r w := by
  induction h with
  | done met => exact .done fun m hMay hInv => weaker _ m (met m hMay hInv)
  | act keeps rest ih => exact .act keeps ih

/-- Others may have been at work already. -/
theorem later (h : Guarded o inv post r w) (may : o.May r w m) : Guarded o inv post r m := by
  cases h with
  | done met => exact .done fun n hMay => met n (may.trans hMay)
  | act keeps rest =>
    exact .act (fun n hMay => keeps n (may.trans hMay)) fun n hMay => rest n (may.trans hMay)

/-- One action keeps the invariant, and what is left is guarded. -/
theorem step (h : Guarded o inv post r w) (hInv : inv w) :
    inv (r.step w).2 ∧ Guarded o inv post (r.step w).1 (r.step w).2 := by
  cases h with
  | done met => exact ⟨hInv, .done met⟩
  | act keeps rest => exact ⟨keeps w .refl hInv, rest w .refl hInv⟩

/-- A refresh that is over meets the condition. -/
theorem of_done {a : α} (h : Guarded o inv post (.done a) w) (hInv : inv w) : post a w := by
  -- a refresh that is over can go on to take actions, which do nothing
  generalize hDone : Refresh.done a = r at h
  induction h with
  | done met =>
    cases hDone
    exact met _ .refl hInv
  | act keeps rest ih =>
    subst hDone
    exact ih _ .refl hInv hInv rfl

/-- One refresh after another. -/
theorem bind {f : α → Refresh κ ν σ β} (h : Guarded o inv post r w) (hInv : inv w)
    (rest : ∀ a m, inv m → post a m → Guarded o inv next (f a) m) :
    Guarded o inv next (r >>= f) w := by
  induction h with
  | done met => exact rest _ _ hInv (met _ .refl hInv)
  | @act r w keeps others ih =>
    cases r with
    -- the action is one of the second refresh
    | done a => exact ih w .refl hInv hInv
    | wait | clock | lastUpdated | get | set | look | change =>
      exact .act (fun m hMay hInv => keeps m hMay.of_bind hInv) fun m hMay hInv =>
        ih m hMay.of_bind hInv (keeps m hMay.of_bind hInv)

section Actions

variable {next : β → Workplace κ ν σ → Prop}

theorem pure {a : α} (met : ∀ m, o.May (.done a : Refresh κ ν σ α) w m → inv m → post a m) :
    Guarded o inv post (Pure.pure a) w := .done met

theorem readClock {f : Clock → Refresh κ ν σ β}
    (rest : ∀ m, o.May (Refresh.readClock >>= f) w m → inv m →
      Guarded o inv next (f m.clock) m) : Guarded o inv next (Refresh.readClock >>= f) w :=
  .act (fun _ _ hInv => hInv) rest

theorem readStamp {key : κ} {f : Option Int → Refresh κ ν σ β}
    (rest : ∀ m, o.May (Refresh.readStamp key >>= f) w m → inv m →
      Guarded o inv next (f (m.store.lastUpdated? key)) m) :
    Guarded o inv next (Refresh.readStamp key >>= f) w :=
  .act (fun _ _ hInv => hInv) rest

theorem read {key : κ} {f : Option ν → Refresh κ ν σ β}
    (keeps : ∀ m, inv m → { m with store := (m.store.get key m.clock.wall).1 } = m)
    (rest : ∀ m, o.May (Refresh.read key >>= f) w m → inv m →
      Guarded o inv next (f (m.store.get key m.clock.wall).2) m) :
    Guarded o inv next (Refresh.read key >>= f) w := by
  refine .act (fun m _ hInv => ?_) fun m hMay hInv => ?_
  · show inv { m with store := (m.store.get key m.clock.wall).1 }
    rwa [keeps m hInv]
  · show Guarded o inv next (f _) { m with store := (m.store.get key m.clock.wall).1 }
    rw [keeps m hInv]
    exact rest m hMay hInv

theorem write {key : κ} {value : ν} {stamp : Int} {f : Unit → Refresh κ ν σ β}
    (keeps : ∀ m, o.May (Refresh.write key value stamp >>= f) w m → inv m →
      inv { m with store := m.store.set key value stamp })
    (rest : ∀ m, o.May (Refresh.write key value stamp >>= f) w m → inv m →
      Guarded o inv next (f ()) { m with store := m.store.set key value stamp }) :
    Guarded o inv next (Refresh.write key value stamp >>= f) w :=
  .act keeps rest

theorem observe {g : σ → α} {f : α → Refresh κ ν σ β}
    (rest : ∀ m, o.May (Refresh.observe g >>= f) w m → inv m →
      Guarded o inv next (f (g m.surroundings)) m) :
    Guarded o inv next (Refresh.observe g >>= f) w :=
  .act (fun _ _ hInv => hInv) rest

theorem alter {effect : σ → σ} {f : Unit → Refresh κ ν σ β}
    (keeps : ∀ m, inv m → inv { m with surroundings := effect m.surroundings })
    (rest : ∀ m, o.May (Refresh.alter effect >>= f) w m → inv m →
      Guarded o inv next (f ()) { m with surroundings := effect m.surroundings }) :
    Guarded o inv next (Refresh.alter effect >>= f) w :=
  .act (fun m _ hInv => keeps m hInv) rest

end Actions

end Guarded

end ItemComposition.Cache
