import ItemComposition.Proofs.Cache.Entries
import ItemComposition.Proofs.Cache.Happenings

/-!
# Where the entries of a cache come from

An entry has its origin in a moment at which its value could be read in the surroundings: the wall
clock was looked at first, then the value was read, and then it was stored under the time that was
seen first. Later it may have been stamped anew. A refresh is careful if, whatever others do between
its actions, it stores nothing but values with such an origin or with one that is under way, under
stamps that are neither ahead of the clock nor behind a stamp of the same key. If the refreshes of a
cache are careful, then all its entries have an origin, and no stamp goes back while the entry stays.
This rests on the update lock: no two refreshes are in progress at once.

## Key results

- `Careful.bind`, `Careful.readClock` and so on: careful refreshes are made of careful parts
- `Careful.step`: what one action of a careful refresh keeps
- `State.Traced.happen`: what everything that happens to a cache keeps
- `State.Traced.happenAll`, `State.Traced.stamp_le`: origins, and stamps that do not go back
-/

namespace ItemComposition.Cache

variable {κ ν σ α β : Type}

/-- A moment, and the workplaces of all moments before it. -/
structure Moment (κ ν σ : Type) where
  past : List (Workplace κ ν σ)
  now : Workplace κ ν σ

namespace Moment

/-- The workplaces up to now. -/
def trail (m : Moment κ ν σ) : List (Workplace κ ν σ) := m.past ++ [m.now]

/-- The moment after this one. -/
def next (m : Moment κ ν σ) (w : Workplace κ ν σ) : Moment κ ν σ := ⟨m.trail, w⟩

end Moment

variable [DecidableEq κ]

/-- No key that has an entry before and after has an earlier stamp after. -/
def Store.StampsRise (before after : Store κ ν) : Prop :=
  ∀ key e e', before.entryOf? key = some e → after.entryOf? key = some e' → e.stamp ≤ e'.stamp

namespace Moment

/-- From a moment to a later one without a write: entries are kept or dropped. -/
structure Onward (m m' : Moment κ ν σ) : Prop where
  trail : m.trail <+: m'.trail
  wall : m.now.clock.wall ≤ m'.now.clock.wall
  entries : ∀ key e, m'.now.store.entryOf? key = some e → m.now.store.entryOf? key = some e

variable (reads : κ → ν → σ → Prop)

omit [DecidableEq κ] in
/-- The wall clock was looked at, and then the value of a key was read. -/
def UnderWay (trail : List (Workplace κ ν σ)) (key : κ) (value : ν) (readTime : Int) : Prop :=
  ∃ began read, [began, read].Sublist trail ∧ began.clock.wall = readTime ∧
    reads key value read.surroundings

/-- The wall clock was looked at, then the value of a key was read, and then it was stored under the
time that was seen. -/
def Origin (trail : List (Workplace κ ν σ)) (key : κ) (value : ν) (readTime : Int) : Prop :=
  ∃ began read stored, [began, read, stored].Sublist trail ∧ began.clock.wall = readTime ∧
    reads key value read.surroundings ∧ stored.store.entryOf? key = some ⟨key, value, readTime⟩

/-- The wall clock never went back, and every entry has an origin and a stamp between the time of
its reading and now. -/
structure Sound (m : Moment κ ν σ) : Prop where
  keyed : m.now.store.Keyed
  walls : m.trail.Pairwise fun w w' => w.clock.wall ≤ w'.clock.wall
  stamp_le : ∀ key e, m.now.store.entryOf? key = some e → e.stamp ≤ m.now.clock.wall
  origin : ∀ key e, m.now.store.entryOf? key = some e →
    ∃ readTime, Origin reads m.trail key e.value readTime ∧ readTime ≤ e.stamp

/-- A write whose stamp is neither ahead of the clock nor behind that of the entry it replaces, of a
value with an origin or with one that is under way. -/
structure Justified (m : Moment κ ν σ) (key : κ) (value : ν) (stamp : Int) : Prop where
  wall : stamp ≤ m.now.clock.wall
  newest : ∀ e, m.now.store.entryOf? key = some e → e.stamp ≤ stamp
  origin : UnderWay reads m.trail key value stamp ∨
    ∃ readTime, Origin reads m.trail key value readTime ∧ readTime ≤ stamp

variable {reads} {m m' m'' : Moment κ ν σ} {w : Workplace κ ν σ} {key : κ} {value : ν}
variable {stamp readTime : Int}

theorem Onward.refl (m : Moment κ ν σ) : m.Onward m :=
  ⟨List.prefix_refl _, Int.le_refl _, fun _ _ h => h⟩

/-- No stamp changes on the way. -/
theorem Onward.stampsRise (h : m.Onward m') : m.now.store.StampsRise m'.now.store := by
  intro key e e' hBefore hAfter
  obtain rfl := Option.some.inj (hBefore.symm.trans (h.entries key e' hAfter))
  exact Int.le_refl _

theorem Onward.trans (h : m.Onward m') (h' : m'.Onward m'') : m.Onward m'' :=
  ⟨h.trail.trans h'.trail, Int.le_trans h.wall h'.wall,
    fun key e hEntry => h.entries key e (h'.entries key e hEntry)⟩

/-- The next moment, if there is no write. -/
theorem onward_next (wall : m.now.clock.wall ≤ w.clock.wall)
    (entries : ∀ key e, w.store.entryOf? key = some e → m.now.store.entryOf? key = some e) :
    m.Onward (m.next w) := ⟨List.prefix_append _ _, wall, entries⟩

/-- From before an action that leaves the clock and the store alone. -/
theorem Onward.of_idle (h : (m.next w).Onward m') (clock : w.clock = m.now.clock)
    (store : w.store = m.now.store) : m.Onward m' := by
  refine (onward_next ?_ fun _ _ hEntry => ?_).trans h
  · exact Int.le_of_eq (congrArg Clock.wall clock.symm)
  · exact store ▸ hEntry

theorem Origin.mono {trail longer : List (Workplace κ ν σ)}
    (h : Origin reads trail key value readTime) (sub : trail.Sublist longer) :
    Origin reads longer key value readTime := by
  obtain ⟨began, read, stored, hOrder, hRest⟩ := h
  exact ⟨began, read, stored, hOrder.trans sub, hRest⟩

omit [DecidableEq κ] in
theorem trail_sublist_next (m : Moment κ ν σ) (w : Workplace κ ν σ) :
    m.trail.Sublist (m.next w).trail := List.sublist_append_left _ _

/-- No moment so far is later than now. -/
theorem Sound.wall_le (h : m.Sound reads) {a : Workplace κ ν σ} (ha : a ∈ m.trail) :
    a.clock.wall ≤ m.now.clock.wall := by
  rcases List.mem_append.1 ha with ha | ha
  · exact (List.pairwise_append.1 h.walls).2.2 a ha m.now List.mem_cons_self
  · exact List.mem_singleton.1 ha ▸ Int.le_refl _

/-- The wall clock goes on. -/
theorem Sound.walls_next (h : m.Sound reads) (wall : m.now.clock.wall ≤ w.clock.wall) :
    (m.next w).trail.Pairwise fun w w' => w.clock.wall ≤ w'.clock.wall := by
  refine List.pairwise_append.2 ⟨h.walls, List.pairwise_singleton _ _, fun a ha b hb => ?_⟩
  obtain rfl := List.mem_singleton.1 hb
  exact Int.le_trans (h.wall_le ha) wall

/-- Without a write, entries keep their origins. -/
theorem Sound.next (h : m.Sound reads) (keyed : w.store.Keyed) (onward : m.Onward (m.next w)) :
    (m.next w).Sound reads where
  keyed := keyed
  walls := h.walls_next onward.wall
  stamp_le key e hEntry := Int.le_trans (h.stamp_le key e (onward.entries key e hEntry)) onward.wall
  origin key e hEntry := by
    obtain ⟨readTime, hOrigin, hLe⟩ := h.origin key e (onward.entries key e hEntry)
    exact ⟨readTime, hOrigin.mono (m.trail_sublist_next w), hLe⟩

/-- A justified write gives an entry with an origin. -/
theorem Sound.set (h : m.Sound reads) (justified : m.Justified reads key value stamp) :
    (m.next { m.now with store := m.now.store.set key value stamp }).Sound reads where
  keyed := h.keyed.set key value stamp
  walls := h.walls_next (Int.le_refl _)
  stamp_le other e hEntry := by
    rcases h.keyed.entryOf?_set hEntry with ⟨-, rfl⟩ | hOld
    · exact justified.wall
    · exact h.stamp_le other e hOld
  origin other e hEntry := by
    rcases h.keyed.entryOf?_set hEntry with ⟨rfl, rfl⟩ | hOld
    · rcases justified.origin with ⟨began, read, hOrder, rfl, hReads⟩ | ⟨readTime, hOrigin, hLe⟩
      · -- the reading is stored now
        exact ⟨_, ⟨began, read, _, hOrder.append (List.Sublist.refl [_]), rfl, hReads, hEntry⟩,
          Int.le_refl _⟩
      · exact ⟨readTime, hOrigin.mono (m.trail_sublist_next _), hLe⟩
    · obtain ⟨readTime, hOrigin, hLe⟩ := h.origin other e hOld
      exact ⟨readTime, hOrigin.mono (m.trail_sublist_next _), hLe⟩

/-- A value that was read after a look at the clock may be stored under the time that was seen. -/
theorem Sound.justified_of_read {m₁ m₂ m₃ : Moment κ ν σ} (sound : m₁.Sound reads)
    (began : (m₁.next m₁.now).Onward m₂) (later : m₂.Onward m₃)
    (read : reads key value m₂.now.surroundings) :
    m₃.Justified reads key value m₁.now.clock.wall := by
  have hOnward : m₁.Onward m₃ := (began.of_idle rfl rfl).trans later
  refine ⟨hOnward.wall, fun e hEntry => sound.stamp_le key e (hOnward.entries key e hEntry), .inl ?_⟩
  -- the look at the clock comes before the reading
  have hBefore : m₁.trail <+: m₂.past := by
    rcases List.prefix_concat_iff.1 began.trail with hSame | hPast
    · exact (List.append_inj_left' hSame rfl) ▸ List.prefix_refl _
    · exact (List.prefix_append _ _).trans hPast
  have hBegan : m₁.now ∈ m₂.past := hBefore.subset (List.mem_append_right _ List.mem_cons_self)
  refine ⟨m₁.now, m₂.now, List.Sublist.trans ?_ later.trail.sublist, rfl, read⟩
  exact (List.singleton_sublist.2 hBegan).append (List.Sublist.refl [m₂.now])

/-- A value that was found in the store may be stored again under a time that was seen since. -/
theorem Sound.justified_of_found {m₁ m₂ m₃ : Moment κ ν σ} (sound₁ : m₁.Sound reads)
    (found : m₁.now.store.entryOf? key = some ⟨key, value, stamp⟩) (seen : m₁.Onward m₂)
    (sound₂ : m₂.Sound reads) (later : m₂.Onward m₃) :
    m₃.Justified reads key value m₂.now.clock.wall := by
  obtain ⟨readTime, hOrigin, hLe⟩ := sound₁.origin key _ found
  refine ⟨later.wall, fun e hEntry => sound₂.stamp_le key e (later.entries key e hEntry),
    .inr ⟨readTime, hOrigin.mono (seen.trans later).trail.sublist, ?_⟩⟩
  calc readTime ≤ stamp := hLe
    _ ≤ m₁.now.clock.wall := sound₁.stamp_le key _ found
    _ ≤ m₂.now.clock.wall := seen.wall

end Moment

/-! ## Careful refreshes -/

/-- If the next action of a refresh is a write, it is justified. -/
def Refresh.Fair (reads : κ → ν → σ → Prop) (r : Refresh κ ν σ α) (m : Moment κ ν σ) : Prop :=
  match r with
  | .set key value stamp _ => m.Justified reads key value stamp
  | _ => True

/-- Every write of a refresh is justified when it comes to it, whatever happened in between. -/
inductive Careful (reads : κ → ν → σ → Prop) : Refresh κ ν σ α → Moment κ ν σ → Prop
  | done (a : α) (m : Moment κ ν σ) : Careful reads (.done a) m
  | act {r : Refresh κ ν σ α} {m : Moment κ ν σ}
    (fair : ∀ m', m.Onward m' → m'.Sound reads → r.Fair reads m')
    (rest : ∀ m', m.Onward m' → m'.Sound reads →
      Careful reads (r.step m'.now).1 (m'.next (r.step m'.now).2)) : Careful reads r m

namespace Careful

variable {reads : κ → ν → σ → Prop} {r : Refresh κ ν σ α} {m m' : Moment κ ν σ}

/-- Others may have been at work already. -/
theorem later (h : Careful reads r m) (onward : m.Onward m') : Careful reads r m' := by
  cases h with
  | done a => exact .done a m'
  | act fair rest =>
    exact .act (fun n h => fair n (onward.trans h)) fun n h => rest n (onward.trans h)

/-- One refresh after another. -/
theorem bind {f : α → Refresh κ ν σ β} (h : Careful reads r m) (rest : ∀ a m, Careful reads (f a) m) :
    Careful reads (r >>= f) m := by
  induction h with
  | done a m => exact rest a m
  | @act r m fair others ih =>
    cases r with
    -- the action is one of the second refresh
    | done a => exact rest a m
    | wait | clock | lastUpdated | get | set | look | change => exact .act fair ih

section Actions

theorem pure (a : α) (m : Moment κ ν σ) : Careful reads (Pure.pure a) m := .done a m

theorem readClock {f : Clock → Refresh κ ν σ β}
    (rest : ∀ m', m.Onward m' → m'.Sound reads → Careful reads (f m'.now.clock) (m'.next m'.now)) :
    Careful reads (Refresh.readClock >>= f) m := .act (fun _ _ _ => trivial) rest

theorem readStamp {key : κ} {f : Option Int → Refresh κ ν σ β}
    (rest : ∀ m', m.Onward m' → m'.Sound reads →
      Careful reads (f (m'.now.store.lastUpdated? key)) (m'.next m'.now)) :
    Careful reads (Refresh.readStamp key >>= f) m := .act (fun _ _ _ => trivial) rest

theorem read {key : κ} {f : Option ν → Refresh κ ν σ β}
    (rest : ∀ m', m.Onward m' → m'.Sound reads →
      Careful reads (f (m'.now.store.get key m'.now.clock.wall).2)
        (m'.next { m'.now with store := (m'.now.store.get key m'.now.clock.wall).1 })) :
    Careful reads (Refresh.read key >>= f) m := .act (fun _ _ _ => trivial) rest

theorem write {key : κ} {value : ν} {stamp : Int} {f : Unit → Refresh κ ν σ β}
    (justified : ∀ m', m.Onward m' → m'.Sound reads → m'.Justified reads key value stamp)
    (rest : ∀ m', Careful reads (f ()) m') :
    Careful reads (Refresh.write key value stamp >>= f) m := .act justified fun _ _ _ => rest _

theorem observe {g : σ → α} {f : α → Refresh κ ν σ β}
    (rest : ∀ m', m.Onward m' → m'.Sound reads →
      Careful reads (f (g m'.now.surroundings)) (m'.next m'.now)) :
    Careful reads (Refresh.observe g >>= f) m := .act (fun _ _ _ => trivial) rest

theorem alter {effect : σ → σ} {f : Unit → Refresh κ ν σ β}
    (rest : ∀ m', m.Onward m' → m'.Sound reads → Careful reads (f ())
      (m'.next { m'.now with surroundings := effect m'.now.surroundings })) :
    Careful reads (Refresh.alter effect >>= f) m := .act (fun _ _ _ => trivial) rest

end Actions

/-- An action other than a write leads onward. -/
theorem onward_of_act (h : m.Sound reads)
    (noWrite : ¬ ∃ key value stamp, r.call? = some (.set key value stamp)) :
    (r.step m.now).2.store.Keyed ∧ m.Onward (m.next (r.step m.now).2) := by
  cases r with
  | get key next =>
    exact ⟨h.keyed.get key _, Moment.onward_next (Int.le_refl _) fun _ _ => h.keyed.entryOf?_get⟩
  | set key value stamp next => exact absurd ⟨key, value, stamp, rfl⟩ noWrite
  | done | wait | clock | lastUpdated | look | change =>
    exact ⟨h.keyed, Moment.onward_next (Int.le_refl _) fun _ _ hEntry => hEntry⟩

/-- One action of a careful refresh leaves a sound moment and a careful refresh, and puts no stamp
back. -/
theorem step (h : Careful reads r m) (sound : m.Sound reads) :
    (m.next (r.step m.now).2).Sound reads ∧
      Careful reads (r.step m.now).1 (m.next (r.step m.now).2) ∧
      m.now.store.StampsRise (r.step m.now).2.store := by
  obtain ⟨hFair, hRest⟩ : r.Fair reads m ∧
      Careful reads (r.step m.now).1 (m.next (r.step m.now).2) := by
    cases h with
    | done a => exact ⟨trivial, .done a _⟩
    | act fair rest => exact ⟨fair m (.refl m) sound, rest m (.refl m) sound⟩
  -- a set must be justified by a read, and that is what the refresh was careful about; any other
  -- act writes nothing, so what the store holds was there before
  by_cases hWrite : ∃ key value stamp, r.call? = some (.set key value stamp)
  · obtain ⟨key, value, stamp, hCall⟩ := hWrite
    cases r with
    | set written value stamp next =>
      have hJustified : m.Justified reads written value stamp := hFair
      refine ⟨sound.set hJustified, hRest, fun other e e' hEntry hEntry' => ?_⟩
      rcases sound.keyed.entryOf?_set hEntry' with ⟨rfl, rfl⟩ | hOld
      · exact hJustified.newest e hEntry
      · obtain rfl := Option.some.inj (hEntry.symm.trans hOld)
        exact Int.le_refl _
    | _ => cases hCall
  · obtain ⟨hKeyed, hOnward⟩ := onward_of_act sound hWrite
    exact ⟨sound.next hKeyed hOnward, hRest, hOnward.stampsRise⟩

end Careful

namespace State

variable {source : Source κ ν σ} {s s' : State κ ν σ} {e : Happening κ σ}
variable {reads : κ → ν → σ → Prop} {past : List (Workplace κ ν σ)}

/-- The workplaces while things happen one after the other. -/
def moments (source : Source κ ν σ) (s : State κ ν σ) :
    List (Happening κ σ) → List (Workplace κ ν σ)
  | [] => [s.place]
  | e :: rest =>
    s.place :: match s.happen source e with
      | some next => moments source next rest
      | none => []

/-- The wall clock does not go back. -/
theorem wall_of_happen (hHappen : s.happen source e = some s') :
    s.place.clock.wall ≤ s'.place.clock.wall := by
  cases e with
  | outside effect =>
    obtain rfl := Option.some.inj hHappen
    exact Int.le_refl _
  | sweep =>
    obtain rfl := Option.some.inj hHappen
    exact Int.le_refl _
  | event e =>
    have hStep : s.step source e = some s' := hHappen
    obtain ⟨-, hClock | ⟨duration, wall, rfl⟩⟩ := frame_of_step hStep
    · exact Int.le_of_eq (congrArg Clock.wall hClock.symm)
    · obtain ⟨-, rfl⟩ := step_pass hStep
      show s.place.clock.wall ≤ s.place.clock.wall + wall
      omega

/-- What happens without an action of a refresh leads onward. -/
theorem onward_of_happen (h : Orderly s) (keyed : s.place.store.Keyed)
    (hHappen : s.happen source e = some s') (idle : ∀ id, e ≠ .event (.work id)) :
    s'.place.store.Keyed ∧
      (⟨past, s.place⟩ : Moment κ ν σ).Onward (Moment.next ⟨past, s.place⟩ s'.place) := by
  have hStore := store_of_happen h hHappen
  have hWall := wall_of_happen hHappen
  -- besides the actions of refreshes, only look-ups and sweeps are calls of the store
  have hCall : s.call? e = none ∨ s.call? e = some .cleanUp ∨ ∃ key, s.call? e = some (.get key) := by
    cases e with
    | outside effect => exact .inl rfl
    | sweep => exact .inr (.inl rfl)
    | event e =>
      cases e with
      | get key => exact .inr (.inr ⟨key, rfl⟩)
      | sweep id => exact .inr (.inl rfl)
      | work id => exact absurd rfl (idle id)
      | _ => exact .inl rfl
  rcases hCall with hCall | hCall | ⟨key, hCall⟩ <;> rw [hCall] at hStore
  · have hStore : s'.place.store = s.place.store := hStore
    exact ⟨hStore ▸ keyed, Moment.onward_next hWall fun _ _ hEntry => hStore ▸ hEntry⟩
  · have hStore : s'.place.store = (s.place.store.cleanUp s.place.clock.wall).1 := hStore
    exact ⟨hStore ▸ keyed.cleanUp _, Moment.onward_next hWall fun _ _ hEntry =>
      keyed.entryOf?_cleanUp (hStore ▸ hEntry)⟩
  · have hStore : s'.place.store = (s.place.store.get key s.place.clock.wall).1 := hStore
    exact ⟨hStore ▸ keyed.get _ _, Moment.onward_next hWall fun _ _ hEntry =>
      keyed.entryOf?_get (hStore ▸ hEntry)⟩

/-! ## Courses of events -/

/-- The moment is sound, and the refresh that a task is in is careful. -/
structure Traced (reads : κ → ν → σ → Prop) (past : List (Workplace κ ν σ)) (s : State κ ν σ) :
    Prop where
  orderly : Orderly s
  sound : Moment.Sound reads ⟨past, s.place⟩
  careful : ∀ t ∈ s.tasks, ∀ began ready rest, t.phase = .refreshing began ready rest →
    Careful reads rest ⟨past, s.place⟩

/-- The refreshes of a source are careful. -/
structure CarefulSource (reads : κ → ν → σ → Prop) (source : Source κ ν σ) : Prop where
  full : ∀ m, Careful reads source.full m
  single : ∀ key m, Careful reads (source.single key) m

/-- There are no entries at first. -/
theorem Traced.of_make {options : CacheOptions} {surroundings : σ} {clock : Clock}
    (hMake : make options surroundings clock = .ok s) : Traced reads [] s := by
  have hOrderly : Orderly s := .of_make hMake
  unfold make at hMake
  split at hMake
  · cases hMake
  obtain rfl := Except.ok.inj hMake
  -- an empty store has nothing to justify, and no task has begun a refresh
  have hNone : ∀ key e, (Store.empty options.policy options.ttl options.capacity :
      Store κ ν).entryOf? key ≠ some e := by
    intro key e hEntry
    rw [Store.entryOf?_empty] at hEntry
    cases hEntry
  exact ⟨hOrderly, ⟨Store.keyed_empty _ _ _, List.pairwise_singleton _ _,
    fun key e hEntry => absurd hEntry (hNone key e),
    fun key e hEntry => absurd hEntry (hNone key e)⟩, nofun⟩

/-- An action of a refresh. -/
theorem Traced.work (h : Traced reads past s) {id : Nat}
    (hStep : s.step source (.work id) = some s') :
    Traced reads (past ++ [s.place]) s' ∧ s.place.store.StampsRise s'.place.store := by
  have hOrderly : Orderly s' := h.orderly.step hStep
  obtain ⟨t, ht, rfl, b, r, old, hPhase, -, rfl⟩ := step_work hStep
  obtain ⟨hSound, hRest, hStamps⟩ := (h.careful t ht b r old hPhase).step h.sound
  rw [← place_work t b old] at hSound hRest hStamps
  -- the update lock: nobody else is in a refresh
  have hSole : ∀ u ∈ s.tasks, ∀ b' r' rest, u.phase = .refreshing b' r' rest → u = t :=
    fun u hu _ _ _ hU => h.orderly.eq_of_isWorking hu ht (by rw [hU]; rfl) (by rw [hPhase]; rfl)
  refine ⟨⟨hOrderly, hSound, fun v hv began ready rest hV => ?_⟩, hStamps⟩
  cases refreshing_of_step hStep hv hV with
  | kept noEnter noWork u hu hId hLoop hSame =>
    obtain rfl := hSole u hu began ready rest (hSame.trans hV)
    exact absurd (congrArg Event.work hId) noWork
  | entered enter => cases enter
  | worked work u hu hId hLoop ready' before hU action =>
    obtain rfl := hSole u hu began ready' before hU
    obtain ⟨-, -, rfl⟩ := Phase.refreshing.inj (hPhase.symm.trans hU)
    subst action
    exact hRest

/-- Anything else. -/
theorem Traced.idle (h : Traced reads past s) (careful : CarefulSource reads source)
    (hHappen : s.happen source e = some s') (idle : ∀ id, e ≠ .event (.work id)) :
    Traced reads (past ++ [s.place]) s' ∧ s.place.store.StampsRise s'.place.store := by
  have hOrderly : Orderly s' := h.orderly.happen hHappen
  obtain ⟨hKeyed, hOnward⟩ := onward_of_happen h.orderly h.sound.keyed hHappen idle
  refine ⟨⟨hOrderly, h.sound.next hKeyed hOnward, fun v hv began ready rest hV => ?_⟩,
    hOnward.stampsRise⟩
  -- what is careful stays so while others act: the reads that justify its writes lie in the past
  have hLater : ∀ u ∈ s.tasks, u.phase = v.phase →
      Careful reads rest (Moment.next ⟨past, s.place⟩ s'.place) :=
    fun u hu hSame => (h.careful u hu began ready rest (hSame.trans hV)).later hOnward
  cases e with
  | outside effect =>
    obtain rfl := Option.some.inj hHappen
    exact hLater v hv rfl
  | sweep =>
    obtain rfl := Option.some.inj hHappen
    exact hLater v hv rfl
  | event e =>
    have hStep : s.step source e = some s' := hHappen
    cases refreshing_of_step hStep hv hV with
    | kept noEnter noWork u hu hId hLoop hSame => exact hLater u hu hSame
    -- a task that was refreshing before goes on, one that enters begins with the source's own
    -- refresh
    | entered enter now whole =>
      rcases whole with rfl | ⟨key, rfl⟩
      · exact careful.full _
      · exact careful.single key _
    | worked work => exact absurd (congrArg Happening.event work) (idle v.id)

/-- Whatever happens, the entries have origins, and no stamp goes back. -/
theorem Traced.happen (h : Traced reads past s) (careful : CarefulSource reads source)
    (hHappen : s.happen source e = some s') :
    Traced reads (past ++ [s.place]) s' ∧ s.place.store.StampsRise s'.place.store := by
  by_cases hWork : ∃ id, e = .event (.work id)
  · obtain ⟨id, rfl⟩ := hWork
    have hStep : s.step source (.work id) = some s' := hHappen
    exact h.work hStep
  · exact h.idle careful hHappen fun id hEq => hWork ⟨id, hEq⟩

/-- After a course of events the entries have origins among the moments of that course. -/
theorem Traced.happenAll (h : Traced reads past s) (careful : CarefulSource reads source)
    {es : List (Happening κ σ)} (hAll : s.happenAll source es = some s') :
    ∃ past', Traced reads past' s' ∧ past' ++ [s'.place] = past ++ s.moments source es := by
  induction es generalizing s past with
  | nil =>
    obtain rfl := Option.some.inj hAll
    exact ⟨past, h, rfl⟩
  -- each thing that happens adds the place before it to the past, and the places of the rest follow
  | cons e rest ih =>
    rw [State.happenAll, Option.bind_eq_some_iff] at hAll
    obtain ⟨next, hNext, hRest⟩ := hAll
    obtain ⟨past', hTraced, hPast⟩ := ih (h.happen careful hNext).1 hRest
    refine ⟨past', hTraced, hPast.trans ?_⟩
    rw [moments, hNext, List.append_assoc]
    rfl

/-- While a key stays in the store its stamp does not go back. -/
theorem Traced.stamp_le (h : Traced reads past s) (careful : CarefulSource reads source)
    {es : List (Happening κ σ)} (hAll : s.happenAll source es = some s') {key : κ}
    (stays : Throughout source (fun m => (m.place.store.lastUpdated? key).isSome) s es)
    {before after : Int} (hBefore : s.place.store.lastUpdated? key = some before)
    (hAfter : s'.place.store.lastUpdated? key = some after) : before ≤ after := by
  induction es generalizing s past before with
  | nil =>
    obtain rfl := Option.some.inj hAll
    obtain rfl := Option.some.inj (hBefore.symm.trans hAfter)
    exact Int.le_refl _
  | cons e rest ih =>
    rw [State.happenAll, Option.bind_eq_some_iff] at hAll
    obtain ⟨next, hNext, hRest⟩ := hAll
    obtain ⟨hTraced, hStamps⟩ := h.happen careful hNext
    -- the key is stored at the state in between, or it is the last state
    obtain ⟨middle, hMiddle⟩ : ∃ middle, next.place.store.lastUpdated? key = some middle := by
      cases rest with
      | nil =>
        obtain rfl := Option.some.inj hRest
        exact ⟨after, hAfter⟩
      | cons e' rest => exact Option.isSome_iff_exists.1 (stays.2 next hNext).1
    refine Int.le_trans ?_ (ih hTraced hRest (stays.2 next hNext) hMiddle)
    rw [Store.lastUpdated?_eq, Option.map_eq_some_iff] at hBefore hMiddle
    obtain ⟨entry, hEntry, rfl⟩ := hBefore
    obtain ⟨entry', hEntry', rfl⟩ := hMiddle
    exact hStamps key entry entry' hEntry hEntry'

end State

end ItemComposition.Cache
