import ItemComposition.Cache.Recency
import Mathlib.Data.List.Perm.Subperm

/-!
# Keys of recency lists

What a write and a look-up of one key do to the others. A write drops at most one other key, the
least recently used, and only when there is no room for a new one. So the keys used last stay
(`RecencyStore.Latest`), as long as they are fewer than the capacity.

## Key results

- `find?_set_self` / `find?_set_of_spared` / `find?_set_of_ne`: the keys after a write
- `isSome_get_iff`, `find?_get_of_ne`: what a look-up serves, and the keys after it
- `Latest.set` / `Latest.get` / `Latest.get_of_not_mem`: which keys were used last
- `Latest.find?_set`: a write does not drop them
- `hasRoom_of_subset`: where all keys fit, none is dropped
-/

namespace ItemComposition.Cache

universe u v

variable {κ : Type u} {ν : Type v} [DecidableEq κ]

namespace RecencyStore

variable {s : RecencyStore κ ν} {key other : κ} {value : ν} {stamp now : Int}

/-- The entries that stay when a key is written: those of the other keys, without the least
recently used if a new key needs its room. -/
def spared (s : RecencyStore κ ν) (key : κ) : List (Entry κ ν) :=
  if (s.find? key).isSome then s.others key
  else if s.capacity ≤ s.size then s.entries.tail
  else s.entries

theorem set_eq (h : s.capacity ≠ 0) (key : κ) (value : ν) (stamp : Int) :
    s.set key value stamp = { s with entries := s.spared key ++ [⟨key, value, stamp⟩] } := by
  unfold set spared
  simp only [if_neg h]
  split
  · rfl
  · split <;> rfl

theorem find?_others_self (s : RecencyStore κ ν) (key : κ) :
    (s.others key).find? (·.key = key) = none := by
  simp [others]

theorem find?_others_of_ne (s : RecencyStore κ ν) (h : other ≠ key) :
    (s.others key).find? (·.key = other) = s.find? other := by
  rw [others, find?, List.find?_filter]
  congr 1
  funext e
  by_cases he : e.key = other <;> simp [he, h]

theorem find?_spared_self (s : RecencyStore κ ν) (key : κ) :
    (s.spared key).find? (·.key = key) = none := by
  unfold spared
  split
  · exact s.find?_others_self key
  · rename_i hNew
    rw [Option.not_isSome_iff_eq_none, find?, List.find?_eq_none] at hNew
    rw [List.find?_eq_none]
    split
    · exact fun e he => hNew e (List.mem_of_mem_tail he)
    · exact hNew

/-- A key has room in a store if it is stored or there are fewer entries than allowed. -/
def hasRoom (s : RecencyStore κ ν) (key : κ) : Prop :=
  (s.find? key).isSome = true ∨ s.size < s.capacity

theorem find?_spared_of_hasRoom (h : other ≠ key) (room : s.hasRoom key) :
    (s.spared key).find? (·.key = other) = s.find? other := by
  unfold spared
  split
  · exact s.find?_others_of_ne h
  · rename_i hNew
    have hSize := room.resolve_left hNew
    rw [if_neg (Nat.not_le.2 hSize)]
    rfl

/-- Only the least recently used entry is dropped for another. -/
theorem find?_spared_of_tail (h : other ≠ key) (later : ∀ e ∈ s.entries.head?, e.key ≠ other) :
    (s.spared key).find? (·.key = other) = s.find? other := by
  by_cases hRoom : s.hasRoom key
  · exact find?_spared_of_hasRoom h hRoom
  · rw [hasRoom, not_or, Nat.not_lt] at hRoom
    rw [spared, if_neg hRoom.1, if_pos hRoom.2, find?]
    cases hEntries : s.entries with
    | nil => rfl
    | cons e rest =>
      have hFirst : e.key ≠ other := later e (by simp [hEntries])
      rw [List.tail_cons, List.find?_cons_of_neg (by simpa using hFirst)]

theorem find?_set_self (h : s.capacity ≠ 0) :
    (s.set key value stamp).find? key = some ⟨key, value, stamp⟩ := by
  rw [set_eq h, find?, List.find?_append, find?_spared_self]
  simp

theorem find?_set_of_spared (h : other ≠ key)
    (hSpared : (s.spared key).find? (·.key = other) = s.find? other) :
    (s.set key value stamp).find? other = s.find? other := by
  by_cases hCapacity : s.capacity = 0
  · rw [set, if_pos hCapacity]
  · rw [set_eq hCapacity, find?, List.find?_append, hSpared]
    simp [h.symm]

/-- A write may at most drop another key. -/
theorem find?_set_of_ne (nodup : (s.entries.map (·.key)).Nodup) (h : other ≠ key) (value : ν)
    (stamp : Int) :
    (s.set key value stamp).find? other = s.find? other ∨
      (s.set key value stamp).find? other = none := by
  by_cases hCapacity : s.capacity = 0
  · left
    rw [set, if_pos hCapacity]
  by_cases hLater : ∀ e ∈ s.entries.head?, e.key ≠ other
  · exact .inl (find?_set_of_spared h (find?_spared_of_tail h hLater))
  by_cases hRoom : s.hasRoom key
  · exact .inl (find?_set_of_spared h (find?_spared_of_hasRoom h hRoom))
  -- the entry that is dropped has no other under its key
  right
  rw [hasRoom, not_or, Nat.not_lt] at hRoom
  rw [set_eq hCapacity, spared, if_neg hRoom.1, if_pos hRoom.2, find?, List.find?_eq_none]
  cases hEntries : s.entries with
  | nil => simp [hEntries] at hLater
  | cons first rest =>
    have hFirst : first.key = other := by simpa [hEntries] using hLater
    rw [hEntries, List.map_cons, List.nodup_cons] at nodup
    intro e he
    rcases List.mem_append.1 he with hRest | hNew
    · have hne : e.key ≠ other := fun hEq =>
        nodup.1 (hFirst.trans hEq.symm ▸ List.mem_map_of_mem hRest)
      simpa using hne
    · rw [List.mem_singleton.1 hNew]
      simpa using h.symm

theorem isSome_get_iff : (s.get key now).2.isSome = true ↔
    ∃ stamp, s.lastUpdated? key = some stamp ∧ age stamp now < s.ttl := by
  unfold get lastUpdated?
  cases s.find? key with
  | none => simp
  | some e =>
    by_cases hOld : s.ttl ≤ age e.stamp now
    · simp [hOld]
    · simp [hOld, Nat.lt_of_not_le hOld]

/-- A look-up drops the key, if it does not serve it, or makes it the most recently used. -/
theorem entries_get (s : RecencyStore κ ν) (key : κ) (now : Int) :
    ((s.get key now).2 = none ∧ (s.get key now).1.entries = s.others key) ∨
      ∃ e, s.find? key = some e ∧ (s.get key now).2 = some e.value ∧
        (s.get key now).1.entries = s.others key ++ [e] := by
  unfold get
  cases hFind : s.find? key with
  | none =>
    left
    refine ⟨rfl, ?_⟩
    -- a look-up that fails takes nothing away, for there is nothing with the key
    rw [find?, List.find?_eq_none] at hFind
    exact (List.filter_eq_self.2 fun e he => by simpa using hFind e he).symm
  | some e =>
    by_cases hOld : s.ttl ≤ age e.stamp now
    · left
      simp [hOld]
    · right
      exact ⟨e, rfl, by simp [hOld]⟩

theorem find?_get_of_ne (s : RecencyStore κ ν) (now : Int) (h : other ≠ key) :
    (s.get key now).1.find? other = s.find? other := by
  rcases s.entries_get key now with ⟨-, hEntries⟩ | ⟨e, hFind, -, hEntries⟩
  · rw [find?, hEntries, find?_others_of_ne s h]
  · have hKey : e.key = key := by simpa using List.find?_some hFind
    rw [find?, hEntries, List.find?_append, find?_others_of_ne s h]
    simp [hKey, h.symm]

theorem find?_get_self_of_isSome (h : (s.get key now).2.isSome = true) :
    (s.get key now).1.find? key = s.find? key := by
  rcases s.entries_get key now with ⟨hNone, -⟩ | ⟨e, hFind, -, hEntries⟩
  · simp [hNone] at h
  · have hKey : e.key = key := by simpa using List.find?_some hFind
    rw [hFind, find?, hEntries, List.find?_append, find?_others_self]
    simp [hKey]

theorem find?_get_self_of_none (h : (s.get key now).2 = none) :
    (s.get key now).1.find? key = none := by
  rcases s.entries_get key now with ⟨-, hEntries⟩ | ⟨e, -, hSome, -⟩
  · rw [find?, hEntries, find?_others_self]
  · simp [hSome] at h

/-! ## The keys used last -/

/-- The keys are those of the entries that were used last. -/
def Latest (s : RecencyStore κ ν) (keys : List κ) : Prop :=
  ∃ old recent, s.entries = old ++ recent ∧ ∀ k, k ∈ keys ↔ k ∈ recent.map (·.key)

omit [DecidableEq κ] in
theorem latest_nil (s : RecencyStore κ ν) : s.Latest [] :=
  ⟨s.entries, [], by simp, by simp⟩

variable {keys : List κ} {old recent : List (Entry κ ν)}

theorem mem_keys_filter_ne {k : κ} :
    k ∈ (recent.filter (·.key ≠ key)).map (·.key) ↔ k ≠ key ∧ k ∈ recent.map (·.key) := by
  simp only [List.mem_map, List.mem_filter, decide_eq_true_eq]
  constructor
  · rintro ⟨e, ⟨hMem, hne⟩, rfl⟩
    exact ⟨hne, e, hMem, rfl⟩
  · rintro ⟨hne, e, hMem, rfl⟩
    exact ⟨e, ⟨hMem, hne⟩, rfl⟩

/-- An entry that moves to the end, or is new there, is used last. -/
theorem Latest.of_moved {e : Entry κ ν} (hKeys : ∀ k, k ∈ keys ↔ k ∈ recent.map (·.key))
    (hEntries : s.entries = old ++ recent.filter (·.key ≠ key) ++ [e]) (hKey : e.key = key) :
    s.Latest (key :: keys) := by
  refine ⟨old, recent.filter (·.key ≠ key) ++ [e], by simp [hEntries], fun k => ?_⟩
  rw [List.map_append, List.mem_append, mem_keys_filter_ne, List.mem_cons, hKeys]
  simp only [List.map_cons, List.map_nil, List.mem_singleton, hKey]
  by_cases hk : k = key <;> simp [hk]

omit [DecidableEq κ] in
theorem Latest.congr {keys' : List κ} (h : s.Latest keys) (same : ∀ k, k ∈ keys ↔ k ∈ keys') :
    s.Latest keys' := by
  obtain ⟨old, recent, hEntries, hKeys⟩ := h
  exact ⟨old, recent, hEntries, fun k => (same k).symm.trans (hKeys k)⟩

omit [DecidableEq κ] in
/-- The entries used last are no more than their keys. -/
theorem length_recent_le (nodup : (s.entries.map (·.key)).Nodup) (hEntries : s.entries = old ++ recent)
    (hKeys : ∀ k, k ∈ keys ↔ k ∈ recent.map (·.key)) : recent.length ≤ keys.length := by
  rw [hEntries, List.map_append, List.nodup_append] at nodup
  have hSub : recent.map (·.key) ⊆ keys := fun k hk => (hKeys k).2 hk
  have hLength := (List.subperm_of_subset nodup.2.1 hSub).length_le
  rwa [List.length_map] at hLength

omit [DecidableEq κ] in
/-- While the keys used last are fewer than allowed, a full store holds an older entry. -/
theorem exists_older (nodup : (s.entries.map (·.key)).Nodup) (hEntries : s.entries = old ++ recent)
    (hKeys : ∀ k, k ∈ keys ↔ k ∈ recent.map (·.key)) (fits : keys.length < s.capacity)
    (full : s.capacity ≤ s.size) : ∃ e rest, old = e :: rest := by
  cases old with
  | cons e rest => exact ⟨e, rest, rfl⟩
  | nil =>
    have hLength := length_recent_le nodup hEntries hKeys
    rw [size, hEntries, List.nil_append] at full
    omega

theorem Latest.set (h : s.Latest keys) (nodup : (s.entries.map (·.key)).Nodup)
    (fits : keys.length < s.capacity) (key : κ) (value : ν) (stamp : Int) :
    (s.set key value stamp).Latest (key :: keys) := by
  obtain ⟨old, recent, hEntries, hKeys⟩ := h
  obtain ⟨older, hSpared⟩ : ∃ older, s.spared key = older ++ recent.filter (·.key ≠ key) := by
    unfold spared
    split
    · exact ⟨old.filter (·.key ≠ key), by rw [others, hEntries, List.filter_append]⟩
    rename_i hNew
    have hRecent : recent.filter (·.key ≠ key) = recent := by
      rw [Option.not_isSome_iff_eq_none, find?, List.find?_eq_none] at hNew
      refine List.filter_eq_self.2 fun e he => ?_
      simpa using hNew e (hEntries ▸ List.mem_append_right _ he)
    rw [hRecent]
    split
    · -- what makes room is older than the keys used last
      rename_i hFull
      obtain ⟨e, rest, rfl⟩ := exists_older nodup hEntries hKeys fits hFull
      exact ⟨rest, by rw [hEntries, List.cons_append, List.tail_cons]⟩
    · exact ⟨old, hEntries⟩
  have hCapacity : s.capacity ≠ 0 := by omega
  rw [set_eq hCapacity]
  have hAfter : s.spared key ++ [⟨key, value, stamp⟩] = older ++ recent.filter (·.key ≠ key) ++
      [⟨key, value, stamp⟩] := by rw [hSpared]
  exact Latest.of_moved hKeys hAfter rfl

/-- A key used last that is written again needs no room. -/
theorem Latest.set_of_mem (h : s.Latest keys) (hMem : key ∈ keys) (value : ν) (stamp : Int) :
    (s.set key value stamp).Latest keys := by
  by_cases hCapacity : s.capacity = 0
  · rwa [RecencyStore.set, if_pos hCapacity]
  obtain ⟨old, recent, hEntries, hKeys⟩ := h
  -- the key is stored already, so a set only moves it to the end and drops no entry
  obtain ⟨e, he, hKey⟩ := List.mem_map.1 ((hKeys key).1 hMem)
  have hStored : (s.find? key).isSome = true := by
    rw [find?, List.find?_isSome]
    exact ⟨e, hEntries ▸ List.mem_append_right _ he, by simpa using hKey⟩
  have hMoved : (s.set key value stamp).Latest (key :: keys) := by
    have hAfter : s.others key ++ [⟨key, value, stamp⟩] = old.filter (·.key ≠ key) ++
        recent.filter (·.key ≠ key) ++ [⟨key, value, stamp⟩] := by
      rw [others, hEntries, List.filter_append]
    rw [set_eq hCapacity, spared, if_pos hStored]
    exact Latest.of_moved hKeys hAfter rfl
  refine hMoved.congr fun k => ?_
  rw [List.mem_cons]
  exact ⟨fun hk => hk.elim (fun hEq => hEq ▸ hMem) id, .inr⟩

theorem Latest.get (h : s.Latest keys) (served : (s.get key now).2.isSome = true) :
    (s.get key now).1.Latest (key :: keys) := by
  obtain ⟨old, recent, hEntries, hKeys⟩ := h
  rcases s.entries_get key now with ⟨hNone, -⟩ | ⟨e, hFind, -, hAfter⟩
  · simp [hNone] at served
  · have hKey : e.key = key := by simpa using List.find?_some hFind
    rw [others, hEntries, List.filter_append] at hAfter
    exact Latest.of_moved hKeys hAfter hKey

theorem Latest.get_of_not_mem (h : s.Latest keys) (hNot : key ∉ keys)
    (missed : (s.get key now).2 = none) : (s.get key now).1.Latest keys := by
  obtain ⟨old, recent, hEntries, hKeys⟩ := h
  rcases s.entries_get key now with ⟨-, hAfter⟩ | ⟨e, -, hSome, -⟩
  · refine ⟨old.filter (·.key ≠ key), recent, ?_, hKeys⟩
    have hRecent : recent.filter (·.key ≠ key) = recent := by
      refine List.filter_eq_self.2 fun e he => ?_
      have hne : e.key ≠ key := fun hEq =>
        hNot ((hKeys key).2 (hEq ▸ List.mem_map_of_mem he))
      simpa using hne
    rw [hAfter, others, hEntries, List.filter_append, hRecent]
  · simp [hSome] at missed

/-- A write does not drop the keys used last. -/
theorem Latest.find?_set (h : s.Latest keys) (nodup : (s.entries.map (·.key)).Nodup)
    (fits : keys.length < s.capacity) (hMem : other ∈ keys) (hne : other ≠ key) :
    (s.set key value stamp).find? other = s.find? other := by
  obtain ⟨old, recent, hEntries, hKeys⟩ := h
  by_cases hRoom : s.hasRoom key
  · exact find?_set_of_spared hne (find?_spared_of_hasRoom hne hRoom)
  rw [hasRoom, not_or, Nat.not_lt] at hRoom
  obtain ⟨first, rest, rfl⟩ := exists_older nodup hEntries hKeys fits hRoom.2
  refine find?_set_of_spared hne (find?_spared_of_tail hne fun e he hEq => ?_)
  -- an older entry does not share its key with one used last
  rw [hEntries, List.cons_append, List.head?_cons, Option.mem_some_iff] at he
  rw [hEntries, List.cons_append, List.map_cons, List.nodup_cons, List.map_append] at nodup
  refine nodup.1 (List.mem_append_right _ ?_)
  rw [he, hEq]
  exact (hKeys other).1 hMem

/-- Where all keys fit, there is room for each of them. -/
theorem hasRoom_of_subset (nodup : (s.entries.map (·.key)).Nodup)
    (subset : ∀ e ∈ s.entries, e.key ∈ keys) (hMem : key ∈ keys) (fits : keys.length ≤ s.capacity) :
    s.hasRoom key := by
  by_cases hStored : (s.find? key).isSome = true
  · exact .inl hStored
  right
  rw [Option.not_isSome_iff_eq_none, find?, List.find?_eq_none] at hStored
  have hNew : key ∉ s.entries.map (·.key) := by
    intro hIn
    obtain ⟨e, he, hKey⟩ := List.mem_map.1 hIn
    exact hStored e he (by simpa using hKey)
  -- with the new key there are still no more of them than the keys that fit
  have hSub : key :: s.entries.map (·.key) ⊆ keys := by
    intro k hk
    rcases List.mem_cons.1 hk with rfl | hk
    · exact hMem
    · obtain ⟨e, he, rfl⟩ := List.mem_map.1 hk
      exact subset e he
  have hLength := (List.subperm_of_subset (List.nodup_cons.2 ⟨hNew, nodup⟩) hSub).length_le
  rw [List.length_cons, List.length_map] at hLength
  exact Nat.lt_of_lt_of_le hLength fits

end RecencyStore

end ItemComposition.Cache
