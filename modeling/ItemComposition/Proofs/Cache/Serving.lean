import ItemComposition.Cache.Store
import ItemComposition.Proofs.Cache.LruRecency
import ItemComposition.Proofs.Cache.RecentKeys

/-!
# What a store serves

A store of either policy is looked at through the stamps of its keys: a key is served when it has a
stamp that is not stale, and staleness is what the policies differ in. Every operation is told by
what it does to the stamps. A bounded store may drop the stamp of another key to make room; not so
the keys that were used last (`Store.Keeps`), as long as they fit.

## Key results

- `Store.Reached.sound`: the stores that operations lead to
- `Store.Sound.isSome_get_iff`: when a key is served
- `Store.Keeps.set` / `Store.Keeps.get` / `Store.Keeps.get_of_not_mem`: the keys used last
- `Store.Keeps.lastUpdated?_set`: a write does not drop them
- `Store.Sound.lastUpdated?_set_of_subset`: where all keys fit, none is dropped
-/

namespace ItemComposition.Cache.Store

universe u v

variable {κ : Type u} {ν : Type v}

/-- Whether an entry with a stamp is no longer served. -/
def isStale (s : Store κ ν) (stamp now : Int) : Bool :=
  match s with
  | background _ => false
  | lru s => s.ttl ≤ age stamp now

/-- Whether a number of entries fits in. -/
def Fits (s : Store κ ν) (n : Nat) : Prop :=
  match s with
  | background _ => True
  | lru s => n ≤ s.capacity

/-- The slots of a bounded store show a recency list. -/
def Sound (s : Store κ ν) : Prop :=
  match s with
  | background _ => True
  | lru s => ∃ r, s.Shows r

/-- A store is stale later if it is now. -/
theorem isStale_mono {s : Store κ ν} {stamp now later : Int} (hLater : now ≤ later)
    (h : s.isStale stamp now = true) : s.isStale stamp later = true := by
  cases s with
  | background s => cases h
  | lru s =>
    have hAge : age stamp now ≤ age stamp later := age_le_age hLater
    simp only [isStale, decide_eq_true_eq] at h ⊢
    omega

/-- An entry that was stamped later is not stale before an older one is. -/
theorem isStale_eq_false_of_le {s : Store κ ν} {stamp later now : Int} (hLater : stamp ≤ later)
    (h : s.isStale stamp now = false) : s.isStale later now = false := by
  cases s with
  | background s => rfl
  | lru s =>
    have hNot : ¬ s.ttl ≤ age stamp now := of_decide_eq_false h
    refine decide_eq_false fun hOld => hNot ?_
    simp only [age] at hOld ⊢
    omega

/-- Where some entries fit in, fewer do. -/
theorem Fits.mono {s : Store κ ν} {m n : Nat} (h : s.Fits n) (hLe : m ≤ n) : s.Fits m := by
  cases s with
  | background s => trivial
  | lru s => exact Nat.le_trans hLe h

variable [DecidableEq κ]

/-- The stores of a policy that writes, look-ups and sweeps lead to. -/
inductive Reached : Store κ ν → Prop
  | empty (policy : EvictionPolicy) (ttl capacity : Nat) : Reached (empty policy ttl capacity)
  | set {s : Store κ ν} (h : Reached s) (key : κ) (value : ν) (stamp : Int) :
    Reached (s.set key value stamp)
  | get {s : Store κ ν} (h : Reached s) (key : κ) (now : Int) : Reached (s.get key now).1
  | cleanUp {s : Store κ ν} (h : Reached s) (now : Int) : Reached (s.cleanUp now).1

variable {s : Store κ ν} {key other : κ} {value : ν} {stamp now : Int} {keys : List κ}

/-! ## Soundness -/

theorem Sound.set (h : s.Sound) (key : κ) (value : ν) (stamp : Int) :
    (s.set key value stamp).Sound := by
  cases s with
  | background s => trivial
  | lru s =>
    obtain ⟨r, hShows⟩ := h
    exact ⟨_, hShows.set key value stamp⟩

theorem Sound.get (h : s.Sound) (key : κ) (now : Int) : (s.get key now).1.Sound := by
  cases s with
  | background s => trivial
  | lru s =>
    obtain ⟨r, hShows⟩ := h
    exact ⟨_, (hShows.get key now).1⟩

theorem Sound.cleanUp (h : s.Sound) (now : Int) : (s.cleanUp now).1.Sound := by
  cases s with
  | background s => trivial
  | lru s =>
    obtain ⟨r, hShows⟩ := h
    exact ⟨_, (hShows.cleanUp now).1⟩

theorem Reached.sound (h : s.Reached) : s.Sound := by
  induction h with
  | empty policy ttl capacity =>
    cases policy with
    | background => trivial
    | lru => exact ⟨_, LruStore.shows_empty capacity ttl⟩
  | set _ key value stamp ih => exact ih.set key value stamp
  | get _ key now ih => exact ih.get key now
  | cleanUp _ now ih => exact ih.cleanUp now

/-! ## What does not change -/

omit [DecidableEq κ] in
/-- Entries of the second store are stale when those of the first are, and as many fit in. -/
structure SameKind (s s' : Store κ ν) : Prop where
  isStale : s'.isStale = s.isStale
  fits : ∀ n, s'.Fits n ↔ s.Fits n

omit [DecidableEq κ] in
theorem SameKind.refl (s : Store κ ν) : s.SameKind s := ⟨rfl, fun _ => Iff.rfl⟩

omit [DecidableEq κ] in
theorem SameKind.trans {s' s'' : Store κ ν} (h : s.SameKind s') (h' : s'.SameKind s'') :
    s.SameKind s'' :=
  ⟨h'.isStale.trans h.isStale, fun n => (h'.fits n).trans (h.fits n)⟩

omit [DecidableEq κ] in
theorem SameKind.of_lru {s s' : LruStore κ ν} (ttl : s'.ttl = s.ttl)
    (capacity : s'.capacity = s.capacity) : SameKind (lru s) (lru s') :=
  ⟨by funext stamp now; simp only [Store.isStale, ttl], fun n => by simp only [Fits, capacity]⟩

theorem sameKind_set (s : Store κ ν) (key : κ) (value : ν) (stamp : Int) :
    s.SameKind (s.set key value stamp) := by
  cases s with
  | background s => exact ⟨rfl, fun _ => Iff.rfl⟩
  | lru s =>
    have hKept : (s.set key value stamp).ttl = s.ttl ∧
        (s.set key value stamp).capacity = s.capacity := by
      unfold LruStore.set
      repeat' split
      all_goals exact ⟨rfl, rfl⟩
    exact .of_lru hKept.1 hKept.2

theorem sameKind_get (s : Store κ ν) (key : κ) (now : Int) : s.SameKind (s.get key now).1 := by
  cases s with
  | background s => exact ⟨rfl, fun _ => Iff.rfl⟩
  | lru s =>
    have hKept : (s.get key now).1.ttl = s.ttl ∧ (s.get key now).1.capacity = s.capacity := by
      unfold LruStore.get
      repeat' split
      all_goals exact ⟨rfl, rfl⟩
    exact .of_lru hKept.1 hKept.2

/-! ## Stamps -/

/-- A look-up serves exactly a key with a stamp that is not stale. -/
theorem Sound.isSome_get_iff (h : s.Sound) : (s.get key now).2.isSome = true ↔
    ∃ stamp, s.lastUpdated? key = some stamp ∧ s.isStale stamp now = false := by
  cases s with
  | background s =>
    simp only [Store.get, lastUpdated?, BackgroundStore.get, BackgroundStore.lastUpdated?, isStale]
    cases s.find? key <;> simp
  | lru s =>
    obtain ⟨r, hShows⟩ := h
    have hServed : ((lru s).get key now).2 = (r.get key now).2 := (hShows.get key now).2
    rw [hServed, RecencyStore.isSome_get_iff]
    simp only [lastUpdated?, hShows.lastUpdated?, isStale, hShows.ttl, decide_eq_false_iff_not,
      Nat.not_le]

/-- A key has the stamp that was written last. -/
theorem Sound.lastUpdated?_set_self (h : s.Sound) (fits : s.Fits 1) :
    (s.set key value stamp).lastUpdated? key = some stamp := by
  cases s with
  | background s => simp [Store.set, lastUpdated?, BackgroundStore.lastUpdated?]
  | lru s =>
    obtain ⟨r, hShows⟩ := h
    have hCapacity : r.capacity ≠ 0 := hShows.capacity ▸ Nat.ne_of_gt fits
    simp only [Store.set, lastUpdated?, (hShows.set key value stamp).lastUpdated?,
      RecencyStore.lastUpdated?, RecencyStore.find?_set_self hCapacity, Option.map_some]

/-- A write may at most drop another key. -/
theorem Sound.lastUpdated?_set_of_ne (h : s.Sound) (hne : other ≠ key) :
    (s.set key value stamp).lastUpdated? other = s.lastUpdated? other ∨
      (s.set key value stamp).lastUpdated? other = none := by
  cases s with
  | background s =>
    left
    simp only [Store.set, lastUpdated?, BackgroundStore.lastUpdated?,
      BackgroundStore.find?_set_of_ne s value stamp hne]
  | lru s =>
    obtain ⟨r, hShows⟩ := h
    simp only [Store.set, lastUpdated?, (hShows.set key value stamp).lastUpdated?,
      hShows.lastUpdated?, RecencyStore.lastUpdated?]
    -- the list by recency may give the other entry up to make room
    rcases RecencyStore.find?_set_of_ne hShows.entries_eq.2 hne value stamp with hSame | hNone
    · exact .inl (by rw [hSame])
    · exact .inr (by rw [hNone, Option.map_none])

/-- A write that has room drops no other key. -/
theorem lastUpdated?_set_of_hasRoom {s : LruStore κ ν} {r : RecencyStore κ ν} (h : s.Shows r) (room : r.hasRoom key)
    (hne : other ≠ key) :
    (s.set key value stamp).lastUpdated? other = s.lastUpdated? other := by
  rw [(h.set key value stamp).lastUpdated?, h.lastUpdated?, RecencyStore.lastUpdated?,
    RecencyStore.lastUpdated?,
    RecencyStore.find?_set_of_spared hne (RecencyStore.find?_spared_of_hasRoom hne room)]

/-- A write to a key that is stored drops no other key. -/
theorem Sound.lastUpdated?_set_of_stored (h : s.Sound) (stored : s.lastUpdated? key ≠ none)
    (hne : other ≠ key) : (s.set key value stamp).lastUpdated? other = s.lastUpdated? other := by
  cases s with
  | background s =>
    simp only [Store.set, lastUpdated?, BackgroundStore.lastUpdated?,
      BackgroundStore.find?_set_of_ne s value stamp hne]
  | lru s =>
    obtain ⟨r, hShows⟩ := h
    have hStored : (r.find? key).isSome = true := by
      simpa only [lastUpdated?, hShows.lastUpdated?, RecencyStore.lastUpdated?, ne_eq,
        Option.map_eq_none_iff, ← Option.isSome_iff_ne_none] using stored
    exact lastUpdated?_set_of_hasRoom hShows (.inl hStored) hne

/-- Where all keys fit, a write drops no other key. -/
theorem Sound.lastUpdated?_set_of_subset (h : s.Sound)
    (subset : ∀ k, s.lastUpdated? k ≠ none → k ∈ keys) (fits : s.Fits keys.length)
    (hMem : key ∈ keys) (hne : other ≠ key) :
    (s.set key value stamp).lastUpdated? other = s.lastUpdated? other := by
  cases s with
  | background s =>
    simp only [Store.set, lastUpdated?, BackgroundStore.lastUpdated?,
      BackgroundStore.find?_set_of_ne s value stamp hne]
  | lru s =>
    obtain ⟨r, hShows⟩ := h
    -- every entry has a stamp, and so its key is one of those that fit
    have hStored : ∀ e ∈ r.entries, e.key ∈ keys := by
      intro e he
      refine subset e.key ?_
      simp only [lastUpdated?, hShows.lastUpdated?, RecencyStore.lastUpdated?, ne_eq,
        Option.map_eq_none_iff, RecencyStore.find?, List.find?_eq_none]
      exact fun hNone => hNone e he (by simp)
    have hRoom : r.hasRoom key := RecencyStore.hasRoom_of_subset hShows.entries_eq.2 hStored hMem
      (hShows.capacity ▸ fits)
    exact lastUpdated?_set_of_hasRoom hShows hRoom hne

/-- A look-up of one key is nothing to the stamps of the others. -/
theorem Sound.lastUpdated?_get_of_ne (h : s.Sound) (now : Int) (hne : other ≠ key) :
    (s.get key now).1.lastUpdated? other = s.lastUpdated? other := by
  cases s with
  | background s => rfl
  | lru s =>
    obtain ⟨r, hShows⟩ := h
    simp only [Store.get, lastUpdated?, Prod.map_fst, (hShows.get key now).1.lastUpdated?,
      hShows.lastUpdated?, RecencyStore.lastUpdated?, RecencyStore.find?_get_of_ne r now hne]

/-- A key that was served keeps its stamp. -/
theorem Sound.lastUpdated?_get_of_isSome (h : s.Sound)
    (served : (s.get key now).2.isSome = true) :
    (s.get key now).1.lastUpdated? key = s.lastUpdated? key := by
  cases s with
  | background s => rfl
  | lru s =>
    obtain ⟨r, hShows⟩ := h
    have hServed : (r.get key now).2.isSome = true := (hShows.get key now).2 ▸ served
    simp only [Store.get, lastUpdated?, Prod.map_fst, (hShows.get key now).1.lastUpdated?,
      hShows.lastUpdated?, RecencyStore.lastUpdated?,
      RecencyStore.find?_get_self_of_isSome hServed]

/-- A key that was not served is not stored any more. -/
theorem Sound.lastUpdated?_get_of_none (h : s.Sound) (missed : (s.get key now).2 = none) :
    (s.get key now).1.lastUpdated? key = none := by
  cases s with
  | background s =>
    simp only [Store.get, BackgroundStore.get, Option.map_eq_none_iff] at missed
    -- without staleness only what is not stored is missed
    simp only [Store.get, lastUpdated?, BackgroundStore.lastUpdated?, missed, Option.map_none]
  | lru s =>
    obtain ⟨r, hShows⟩ := h
    have hMissed : (r.get key now).2 = none := (hShows.get key now).2 ▸ missed
    simp only [Store.get, lastUpdated?, Prod.map_fst, (hShows.get key now).1.lastUpdated?,
      RecencyStore.lastUpdated?, RecencyStore.find?_get_self_of_none hMissed, Option.map_none]

/-! ## The keys used last

A bounded store drops the entry that was used the longest ago, and so none of the keys used last
while they fit. An unbounded store drops nothing. -/

/-- The keys are stored, and no other key was used after them. -/
def Keeps (s : Store κ ν) (keys : List κ) : Prop :=
  match s with
  | background s => ∀ k ∈ keys, (s.find? k).isSome = true
  | lru s => ∃ r, s.Shows r ∧ r.Latest keys

theorem Sound.keeps_nil (h : s.Sound) : s.Keeps [] := by
  cases s with
  | background s => exact nofun
  | lru s =>
    obtain ⟨r, hShows⟩ := h
    exact ⟨r, hShows, r.latest_nil⟩

theorem Keeps.sound (h : s.Keeps keys) : s.Sound := by
  cases s with
  | background s => trivial
  | lru s =>
    obtain ⟨r, hShows, -⟩ := h
    exact ⟨r, hShows⟩

/-- A key that is written is used last; it may need room beside the others. -/
theorem Keeps.set (h : s.Keeps keys) (fits : s.Fits (keys.length + 1)) (key : κ) (value : ν)
    (stamp : Int) : (s.set key value stamp).Keeps (key :: keys) := by
  cases s with
  | background s =>
    intro k hk
    -- the store of one entry a key forgets nothing at a set
    by_cases hKey : k = key
    · rw [hKey, BackgroundStore.find?_set_self]
      rfl
    · rw [BackgroundStore.find?_set_of_ne s value stamp hKey]
      exact h k ((List.mem_cons.1 hk).resolve_left hKey)
  | lru s =>
    obtain ⟨r, hShows, hLatest⟩ := h
    -- with room for one more key the list gives up none of those it keeps
    have hFits : keys.length < r.capacity := hShows.capacity ▸ fits
    exact ⟨_, hShows.set key value stamp,
      hLatest.set hShows.entries_eq.2 hFits key value stamp⟩

/-- A key that is written again needs no room. -/
theorem Keeps.set_of_mem (h : s.Keeps keys) (hMem : key ∈ keys) (value : ν) (stamp : Int) :
    (s.set key value stamp).Keeps keys := by
  cases s with
  | background s =>
    intro k hk
    by_cases hKey : k = key
    · rw [hKey, BackgroundStore.find?_set_self]
      rfl
    · rw [BackgroundStore.find?_set_of_ne s value stamp hKey]
      exact h k hk
  | lru s =>
    obtain ⟨r, hShows, hLatest⟩ := h
    exact ⟨_, hShows.set key value stamp, hLatest.set_of_mem hMem value stamp⟩

/-- A key that is served is used last, and was stored before. -/
theorem Keeps.get (h : s.Keeps keys) (served : (s.get key now).2.isSome = true) :
    (s.get key now).1.Keeps (key :: keys) := by
  cases s with
  | background s =>
    intro k hk
    rcases List.mem_cons.1 hk with rfl | hk
    · simpa [Store.get, BackgroundStore.get] using served
    · exact h k hk
  | lru s =>
    obtain ⟨r, hShows, hLatest⟩ := h
    have hServed : (r.get key now).2.isSome = true := (hShows.get key now).2 ▸ served
    exact ⟨_, (hShows.get key now).1, hLatest.get hServed⟩

/-- A look-up in vain drops at most the key itself. -/
theorem Keeps.get_of_not_mem (h : s.Keeps keys) (hNot : key ∉ keys)
    (missed : (s.get key now).2 = none) : (s.get key now).1.Keeps keys := by
  cases s with
  | background s => exact h
  | lru s =>
    obtain ⟨r, hShows, hLatest⟩ := h
    have hMissed : (r.get key now).2 = none := (hShows.get key now).2 ▸ missed
    exact ⟨_, (hShows.get key now).1, hLatest.get_of_not_mem hNot hMissed⟩

/-- A write does not drop the keys used last. -/
theorem Keeps.lastUpdated?_set (h : s.Keeps keys) (fits : s.Fits (keys.length + 1))
    (hMem : other ∈ keys) (hne : other ≠ key) :
    (s.set key value stamp).lastUpdated? other = s.lastUpdated? other := by
  cases s with
  | background s =>
    simp only [Store.set, lastUpdated?, BackgroundStore.lastUpdated?,
      BackgroundStore.find?_set_of_ne s value stamp hne]
  | lru s =>
    obtain ⟨r, hShows, hLatest⟩ := h
    have hFits : keys.length < r.capacity := hShows.capacity ▸ fits
    simp only [Store.set, lastUpdated?, (hShows.set key value stamp).lastUpdated?,
      hShows.lastUpdated?, RecencyStore.lastUpdated?,
      hLatest.find?_set hShows.entries_eq.2 hFits hMem hne]

end ItemComposition.Cache.Store
