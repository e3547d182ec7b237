import ItemComposition.Cache.Store
import ItemComposition.Proofs.Cache.LruRecency
import ItemComposition.Proofs.Cache.RecentKeys

/-!
# The entries of a store of either policy

An entry is found by its key, whatever the policy. A write is the only operation after which there is
an entry that was not there before; look-ups and sweeps keep an entry as it is or drop it.

## Key results

- `Store.Keyed.entryOf?_set`, `Store.Keyed.entryOf?_get`, `Store.Keyed.entryOf?_cleanUp`: where an entry
  comes from
- `Store.Keyed.entryOf?_of_get`: the entry behind what a look-up serves
-/

namespace ItemComposition.Cache

variable {κ ν : Type} [DecidableEq κ]

/-- Among entries with distinct keys, that of a key is found in a part of them if it is there. -/
theorem find?_filter_eq_some_iff {entries : List (Entry κ ν)} (nodup : (entries.map Entry.key).Nodup)
    {p : Entry κ ν → Bool} {key : κ} {e : Entry κ ν} :
    (entries.filter p).find? (·.key = key) = some e ↔
      entries.find? (·.key = key) = some e ∧ p e = true := by
  -- with one entry a key, to be found and to be in the list are the same
  have hFind : ∀ l : List (Entry κ ν), (l.map Entry.key).Nodup →
      (l.find? (·.key = key) = some e ↔ e ∈ l ∧ e.key = key) := by
    intro l hNodup
    constructor
    · intro hFind
      exact ⟨List.mem_of_find?_eq_some hFind, by simpa using List.find?_some hFind⟩
    · rintro ⟨hMem, rfl⟩
      exact find?_key_of_mem hNodup hMem
  rw [hFind _ (nodup.sublist (List.filter_sublist.map _)), hFind _ nodup, List.mem_filter, and_assoc,
    and_assoc, and_comm (a := p e = true)]

namespace BackgroundStore

variable {s : BackgroundStore κ ν} {key : κ} {e : Entry κ ν}

omit [DecidableEq κ] in
/-- There is one entry a key. -/
def Distinct (s : BackgroundStore κ ν) : Prop := (s.entries.map Entry.key).Nodup

omit [DecidableEq κ] in
theorem distinct_empty (ttl : Nat) : (empty ttl : BackgroundStore κ ν).Distinct := List.nodup_nil

theorem Distinct.set (h : s.Distinct) (key : κ) (value : ν) (stamp : Int) :
    (s.set key value stamp).Distinct := by
  have hOthers : ((s.entries.filter (·.key ≠ key)).map Entry.key).Nodup :=
    h.sublist (List.filter_sublist.map _)
  refine List.nodup_cons.2 ⟨fun hMem => ?_, hOthers⟩
  obtain ⟨e, he, hKey⟩ := List.mem_map.1 hMem
  simpa [hKey] using (List.mem_filter.1 he).2

omit [DecidableEq κ] in
theorem Distinct.cleanUp (h : s.Distinct) (now : Int) : (s.cleanUp now).1.Distinct :=
  h.sublist (List.filter_sublist.map _)

/-- A sweep keeps an entry up to an age. -/
theorem find?_cleanUp (h : s.Distinct) {now : Int} :
    (s.cleanUp now).1.find? key = some e ↔ s.find? key = some e ∧ age e.stamp now ≤ s.expiry := by
  rw [find?, cleanUp, find?_filter_eq_some_iff h, decide_eq_true_eq]
  rfl

end BackgroundStore

/-- The entry of a key. -/
def LruStore.entryOf? (s : LruStore κ ν) (key : κ) : Option (Entry κ ν) :=
  (s.slots.slotOf? key).bind s.slots.entryAt?

theorem LruStore.Shows.entryOf? {s : LruStore κ ν} {r : RecencyStore κ ν} (h : s.Shows r) (key : κ) :
    s.entryOf? key = r.find? key := by
  obtain ⟨cells, hSound, hEntries⟩ := h.sound
  unfold LruStore.entryOf?
  by_cases hKey : key ∈ cells.map (·.2.key)
  · obtain ⟨c, hc, rfl⟩ := List.mem_map.1 hKey
    rw [hSound.slotOf?_eq hc, find?_of_mem hEntries hSound.keys_nodup hc, Option.bind_some,
      hSound.toChain.entryAt?_eq hc]
  · rw [hSound.slotOf?_eq_none hKey, find?_of_not_mem hEntries hKey]
    rfl

namespace Store

variable {s : Store κ ν} {key other : κ} {value : ν} {stamp now : Int} {e : Entry κ ν}

/-- The entry of a key. -/
def entryOf? (s : Store κ ν) (key : κ) : Option (Entry κ ν) :=
  match s with
  | background s => s.find? key
  | lru s => s.entryOf? key

/-- There is one entry a key. -/
def Keyed (s : Store κ ν) : Prop :=
  match s with
  | background s => s.Distinct
  | lru s => ∃ r, s.Shows r

omit [DecidableEq κ] in
theorem keyed_empty (policy : EvictionPolicy) (ttl capacity : Nat) :
    (empty policy ttl capacity : Store κ ν).Keyed := by
  cases policy with
  | background => exact BackgroundStore.distinct_empty ttl
  | lru => exact ⟨_, LruStore.shows_empty capacity ttl⟩

theorem entryOf?_empty (policy : EvictionPolicy) (ttl capacity : Nat) (key : κ) :
    (empty policy ttl capacity : Store κ ν).entryOf? key = none := by
  cases policy <;> rfl

theorem Keyed.set (h : s.Keyed) (key : κ) (value : ν) (stamp : Int) :
    (s.set key value stamp).Keyed := by
  cases s with
  | background s => exact BackgroundStore.Distinct.set h key value stamp
  | lru s =>
    obtain ⟨r, hShows⟩ := h
    exact ⟨_, hShows.set key value stamp⟩

theorem Keyed.get (h : s.Keyed) (key : κ) (now : Int) : (s.get key now).1.Keyed := by
  cases s with
  | background s => exact h
  | lru s =>
    obtain ⟨r, hShows⟩ := h
    exact ⟨_, (hShows.get key now).1⟩

theorem Keyed.cleanUp (h : s.Keyed) (now : Int) : (s.cleanUp now).1.Keyed := by
  cases s with
  | background s => exact BackgroundStore.Distinct.cleanUp h now
  | lru s =>
    obtain ⟨r, hShows⟩ := h
    exact ⟨_, (hShows.cleanUp now).1⟩

theorem lastUpdated?_eq (s : Store κ ν) (key : κ) :
    s.lastUpdated? key = (s.entryOf? key).map Entry.stamp := by
  cases s with
  | background s => rfl
  | lru s =>
    show (_ : Option _) = Option.map _ ((s.slots.slotOf? key).bind s.slots.entryAt?)
    rw [lastUpdated?, LruStore.lastUpdated?, Option.map_bind, Option.map_bind]
    congr 1
    funext slot
    rw [Function.comp, Function.comp, Slots.entryAt?, Option.map_map]
    rfl

/-- An entry after a write is what was written, or was there before. -/
theorem Keyed.entryOf?_set (h : s.Keyed) (hEntry : (s.set key value stamp).entryOf? other = some e) :
    (other = key ∧ e = ⟨key, value, stamp⟩) ∨ s.entryOf? other = some e := by
  by_cases hne : other = key
  · subst hne
    cases s with
    | background s =>
      rw [Store.set, entryOf?, BackgroundStore.find?_set_self] at hEntry
      exact .inl ⟨rfl, (Option.some.inj hEntry).symm⟩
    | lru s =>
      obtain ⟨r, hShows⟩ := h
      rw [Store.set, entryOf?, (hShows.set other value stamp).entryOf?] at hEntry
      by_cases hCapacity : r.capacity = 0
      · -- a store without room takes nothing
        rw [RecencyStore.set, if_pos hCapacity] at hEntry
        exact .inr ((hShows.entryOf? other).trans hEntry)
      · rw [RecencyStore.find?_set_self hCapacity] at hEntry
        exact .inl ⟨rfl, (Option.some.inj hEntry).symm⟩
  · cases s with
    | background s =>
      rw [Store.set, entryOf?, BackgroundStore.find?_set_of_ne s value stamp hne] at hEntry
      exact .inr hEntry
    | lru s =>
      obtain ⟨r, hShows⟩ := h
      rw [Store.set, entryOf?, (hShows.set key value stamp).entryOf?] at hEntry
      rcases RecencyStore.find?_set_of_ne hShows.entries_eq.2 hne value stamp with hSame | hNone
      · exact .inr ((hShows.entryOf? other).trans (hSame.symm.trans hEntry))
      · cases hNone.symm.trans hEntry

/-- An entry after a look-up was there before. -/
theorem Keyed.entryOf?_get (h : s.Keyed) (hEntry : (s.get key now).1.entryOf? other = some e) :
    s.entryOf? other = some e := by
  -- only the store bounded by size changes at a look-up: it drops an entry that is too old, and
  -- moves the one it serves to the end
  cases s with
  | background s => exact hEntry
  | lru s =>
    obtain ⟨r, hShows⟩ := h
    have hEntry : (s.get key now).1.entryOf? other = some e := hEntry
    rw [(hShows.get key now).1.entryOf?] at hEntry
    refine (hShows.entryOf? other).trans ?_
    by_cases hne : other = key
    · subst hne
      cases hServed : (r.get other now).2 with
      | none =>
        rw [RecencyStore.find?_get_self_of_none hServed] at hEntry
        cases hEntry
      | some value =>
        rwa [RecencyStore.find?_get_self_of_isSome (by rw [hServed]; rfl)] at hEntry
    · rwa [RecencyStore.find?_get_of_ne r now hne] at hEntry

/-- An entry after a sweep was there before. -/
theorem Keyed.entryOf?_cleanUp (h : s.Keyed) (hEntry : (s.cleanUp now).1.entryOf? other = some e) :
    s.entryOf? other = some e := by
  cases s with
  | background s => exact ((BackgroundStore.find?_cleanUp h).1 hEntry).1
  | lru s =>
    obtain ⟨r, hShows⟩ := h
    have hEntry : (s.cleanUp now).1.entryOf? other = some e := hEntry
    rw [(hShows.cleanUp now).1.entryOf?, RecencyStore.find?, RecencyStore.cleanUp,
      find?_filter_eq_some_iff hShows.entries_eq.2] at hEntry
    exact (hShows.entryOf? other).trans hEntry.1

/-- What is served is the value of an entry. -/
theorem Keyed.entryOf?_of_get (h : s.Keyed) (served : (s.get key now).2 = some value) :
    ∃ stamp, s.entryOf? key = some ⟨key, value, stamp⟩ := by
  cases s with
  | background s =>
    obtain ⟨e, hFind, rfl⟩ := Option.map_eq_some_iff.1 served
    obtain rfl : e.key = key := by simpa using List.find?_some hFind
    exact ⟨e.stamp, hFind⟩
  | lru s =>
    obtain ⟨r, hShows⟩ := h
    have hServed : (r.get key now).2 = some value := (hShows.get key now).2 ▸ served
    rcases r.entries_get key now with ⟨hNone, -⟩ | ⟨e, hFind, hSome, -⟩
    · cases hNone.symm.trans hServed
    · obtain rfl := Option.some.inj (hSome.symm.trans hServed)
      obtain rfl : e.key = key := by simpa using List.find?_some hFind
      exact ⟨e.stamp, (hShows.entryOf? _).trans hFind⟩

end Store

end ItemComposition.Cache
