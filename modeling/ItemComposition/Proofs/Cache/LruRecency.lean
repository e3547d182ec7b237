import ItemComposition.Cache.Recency
import ItemComposition.Proofs.Cache.SlotContents

/-!
# Linked slots keep a recency list

A bounded store in linked slots answers every sequence of calls as the plain recency list does.
The two are related by `LruStore.Shows`: the cells of the slots, in the order of the chain, are
the entries of the list. Each operation keeps the relation and gives the same answer.

## Key results

- `LruStore.shows_answer`: one call, answered alike
- `LruStore.serve_eq_recency`: a whole run, with what it says about capacity and eviction
-/

namespace ItemComposition.Cache

universe u v w

/-- A call of a store. -/
inductive StoreCall (κ : Type u) (ν : Type v) where
  | set (key : κ) (value : ν) (stamp : Int)
  | get (key : κ)
  | lastUpdated (key : κ)
  | cleanUp
  | size
  deriving Repr, DecidableEq

/-- The answer to a call of a store. -/
inductive StoreAnswer (ν : Type v) where
  | done
  | value (found : Option ν)
  | stamp (found : Option Int)
  | count (n : Nat)
  deriving Repr, DecidableEq

variable {κ : Type u} {ν : Type v}

/-- Makes calls one after the other, each with the clock reading it sees. -/
def serve {σ : Type w} (answer : σ → Int → StoreCall κ ν → σ × StoreAnswer ν) (s : σ) :
    List (Int × StoreCall κ ν) → σ × List (StoreAnswer ν)
  | [] => (s, [])
  | (now, call) :: rest =>
    let (next, given) := answer s now call
    let (last, others) := serve answer next rest
    (last, given :: others)

variable [DecidableEq κ]

/-- A recency list answers a call. -/
def RecencyStore.answer (s : RecencyStore κ ν) (now : Int) :
    StoreCall κ ν → RecencyStore κ ν × StoreAnswer ν
  | .set key value stamp => (s.set key value stamp, .done)
  | .get key => (s.get key now).map id .value
  | .lastUpdated key => (s, .stamp (s.lastUpdated? key))
  | .cleanUp => (s.cleanUp now).map id .count
  | .size => (s, .count s.size)

namespace LruStore

/-- A bounded store in linked slots answers a call. -/
def answer (s : LruStore κ ν) (now : Int) : StoreCall κ ν → LruStore κ ν × StoreAnswer ν
  | .set key value stamp => (s.set key value stamp, .done)
  | .get key => (s.get key now).map id .value
  | .lastUpdated key => (s, .stamp (s.lastUpdated? key))
  | .cleanUp => (s.cleanUp now).map id .count
  | .size => (s, .count s.size)

omit [DecidableEq κ] in
/-- The slots hold the entries of the list in its order. -/
structure Shows (s : LruStore κ ν) (r : RecencyStore κ ν) : Prop where
  capacity : s.capacity = r.capacity
  ttl : s.ttl = r.ttl
  sound : ∃ cells, s.slots.Sound cells ∧ r.entries = cells.map Prod.snd

/-! ## The entries of a list behind the cells -/

section Behind

variable {r : RecencyStore κ ν} {cells a b : List (Cell κ ν)} {c : Cell κ ν}

theorem find?_of_mem (entries : r.entries = cells.map Prod.snd)
    (nodup : (cells.map (·.2.key)).Nodup) (hc : c ∈ cells) : r.find? c.2.key = some c.2 := by
  have hKeys : (r.entries.map (·.key)).Nodup := by rwa [entries, List.map_map]
  have hMem : c.2 ∈ r.entries := entries ▸ List.mem_map_of_mem hc
  exact find?_key_of_mem hKeys hMem

theorem find?_of_not_mem (entries : r.entries = cells.map Prod.snd) {key : κ}
    (hk : key ∉ cells.map (·.2.key)) : r.find? key = none := by
  rw [RecencyStore.find?, entries, List.find?_eq_none]
  intro e he
  obtain ⟨c, hc, rfl⟩ := List.mem_map.1 he
  have hne : c.2.key ≠ key := fun heq => hk (heq ▸ List.mem_map_of_mem hc)
  simpa using hne

theorem others_of_mem (entries : r.entries = (a ++ c :: b).map Prod.snd)
    (nodup : ((a ++ c :: b).map (·.2.key)).Nodup) : r.others c.2.key = (a ++ b).map Prod.snd := by
  rw [RecencyStore.others, entries, List.filter_map]
  exact congrArg _ (filter_key_ne (f := fun d : Cell κ ν => d.2.key) nodup)

end Behind

/-! ## Single operations -/

variable {s : LruStore κ ν} {r : RecencyStore κ ν}

omit [DecidableEq κ] in
theorem Shows.size_eq (h : Shows s r) : s.size = r.size := by
  obtain ⟨cells, hSound, hEntries⟩ := h.sound
  rw [size, RecencyStore.size, hSound.length_index, hEntries, List.length_map]

theorem Shows.set (h : Shows s r) (key : κ) (value : ν) (stamp : Int) :
    Shows (s.set key value stamp) (r.set key value stamp) := by
  obtain ⟨cells, hSound, hEntries⟩ := h.sound
  let added : Entry κ ν := ⟨key, value, stamp⟩
  unfold LruStore.set RecencyStore.set
  rw [h.capacity, h.size_eq]
  by_cases hCapacity : r.capacity = 0
  · simpa only [hCapacity, if_true] using h
  simp only [if_neg hCapacity]
  by_cases hKey : key ∈ cells.map (·.2.key)
  · -- an entry that is there moves to the end before it is overwritten
    obtain ⟨c, hc, rfl⟩ := List.mem_map.1 hKey
    obtain ⟨a, b, rfl⟩ := List.append_of_mem hc
    rw [hSound.slotOf?_eq hc, find?_of_mem hEntries hSound.keys_nodup hc,
      others_of_mem hEntries hSound.keys_nodup]
    exact ⟨rfl, h.ttl, _, hSound.moveNewest.overwrite value stamp, by simp⟩
  · rw [hSound.slotOf?_eq_none hKey, find?_of_not_mem hEntries hKey]
    simp only [Option.isSome_none, Bool.false_eq_true, if_false]
    by_cases hFull : r.capacity ≤ r.size
    · -- the oldest cell is the head of the list
      simp only [if_pos hFull, hSound.oldest]
      cases cells with
      | nil =>
        obtain ⟨slot, hNew⟩ := hSound.insert (e := added) hKey
        exact ⟨rfl, h.ttl, _, hNew, by simp [hEntries, added]⟩
      | cons c rest =>
        have hRest : (s.slots.remove c.1).Sound rest := hSound.remove (a := [])
        have hNewKey : added.key ∉ rest.map (·.2.key) :=
          fun hMem => hKey (List.mem_cons_of_mem _ hMem)
        obtain ⟨slot, hNew⟩ := hRest.insert hNewKey
        exact ⟨rfl, h.ttl, _, hNew, by simp [hEntries, added]⟩
    · simp only [if_neg hFull]
      obtain ⟨slot, hNew⟩ := hSound.insert (e := added) hKey
      exact ⟨rfl, h.ttl, _, hNew, by simp [hEntries, added]⟩

theorem Shows.get (h : Shows s r) (key : κ) (now : Int) :
    Shows (s.get key now).1 (r.get key now).1 ∧ (s.get key now).2 = (r.get key now).2 := by
  obtain ⟨cells, hSound, hEntries⟩ := h.sound
  unfold LruStore.get RecencyStore.get
  by_cases hKey : key ∈ cells.map (·.2.key)
  · obtain ⟨c, hc, rfl⟩ := List.mem_map.1 hKey
    obtain ⟨a, b, rfl⟩ := List.append_of_mem hc
    have hHeld := hSound.toChain.node?_eq
    have hMoved : (s.slots.moveNewest c.1).entryAt? c.1 = some c.2 :=
      hSound.moveNewest.toChain.entryAt?_eq (by simp)
    rw [hSound.slotOf?_eq hc, find?_of_mem hEntries hSound.keys_nodup hc,
      others_of_mem hEntries hSound.keys_nodup, h.ttl]
    simp only [hHeld]
    split
    · -- too old: given up
      exact ⟨⟨h.capacity, rfl, _, hSound.remove, rfl⟩, rfl⟩
    · -- the value is read after the entry was moved
      refine ⟨⟨h.capacity, rfl, _, hSound.moveNewest, by simp⟩, ?_⟩
      obtain ⟨n, hNode, hEntry⟩ := Option.map_eq_some_iff.1 hMoved
      simp only [hNode, Option.map_some, hEntry]
  · rw [hSound.slotOf?_eq_none hKey, find?_of_not_mem hEntries hKey]
    exact ⟨h, rfl⟩

theorem Shows.lastUpdated? (h : Shows s r) (key : κ) :
    s.lastUpdated? key = r.lastUpdated? key := by
  obtain ⟨cells, hSound, hEntries⟩ := h.sound
  unfold LruStore.lastUpdated? RecencyStore.lastUpdated?
  by_cases hKey : key ∈ cells.map (·.2.key)
  · obtain ⟨c, hc, rfl⟩ := List.mem_map.1 hKey
    obtain ⟨n, hNode, hEntry⟩ := Option.map_eq_some_iff.1 (hSound.toChain.entryAt?_eq hc)
    rw [hSound.slotOf?_eq hc, find?_of_mem hEntries hSound.keys_nodup hc]
    simp only [Option.bind_some, hNode, Option.map_some, hEntry]
  · rw [hSound.slotOf?_eq_none hKey, find?_of_not_mem hEntries hKey]
    rfl

omit [DecidableEq κ] in
/-- The expired slots are those of the cells that are too old, in some order. -/
theorem expired_perm {cells : List (Cell κ ν)} (h : s.slots.Sound cells) (now : Int) :
    (s.expired now).Perm ((cells.filter (s.ttl < age ·.2.stamp now)).map Prod.fst) := by
  have hSlots : (s.slots.index.map (·.2)).Perm (cells.map Prod.fst) := by
    have hMap := h.indexed.map (·.2)
    rwa [List.map_map] at hMap
  refine (hSlots.filter _).trans (List.Perm.of_eq ?_)
  rw [List.filter_map]
  refine congrArg _ (List.filter_congr fun c hc => ?_)
  obtain ⟨n, hNode, hEntry⟩ := Option.map_eq_some_iff.1 (h.toChain.entryAt?_eq hc)
  simp [hNode, hEntry]

omit [DecidableEq κ] in
/-- A cell is expired exactly when its entry is older than the lifetime. -/
theorem mem_expired {cells : List (Cell κ ν)} (h : s.slots.Sound cells) (now : Int)
    {c : Cell κ ν} (hc : c ∈ cells) : c.1 ∈ s.expired now ↔ s.ttl < age c.2.stamp now := by
  rw [(expired_perm h now).mem_iff, List.mem_map]
  constructor
  · rintro ⟨d, hd, hSlot⟩
    obtain ⟨hMem, hOld⟩ := List.mem_filter.1 hd
    rw [List.inj_on_of_nodup_map h.nodup hMem hc hSlot] at hOld
    exact of_decide_eq_true hOld
  · exact fun hOld => ⟨c, List.mem_filter.2 ⟨hc, decide_eq_true hOld⟩, rfl⟩

theorem Shows.cleanUp (h : Shows s r) (now : Int) :
    Shows (s.cleanUp now).1 (r.cleanUp now).1 ∧ (s.cleanUp now).2 = (r.cleanUp now).2 := by
  obtain ⟨cells, hSound, hEntries⟩ := h.sound
  have hPerm := expired_perm hSound now
  have hSub : ((cells.filter (s.ttl < age ·.2.stamp now)).map Prod.fst).Sublist
      (cells.map Prod.fst) := List.filter_sublist.map _
  -- the index lists the expired slots in an order of its own, which does not matter
  have hSwept := hSound.removeAll (hPerm.nodup_iff.2 (hSound.nodup.sublist hSub))
    fun key hKey => hSub.subset (hPerm.subset hKey)
  have hKept : cells.filter (·.1 ∉ s.expired now) = cells.filter (age ·.2.stamp now ≤ r.ttl) := by
    refine List.filter_congr fun c hc => decide_eq_decide.2 ?_
    rw [mem_expired hSound now hc, h.ttl, Nat.not_lt]
  have hCount : (s.expired now).length =
      r.entries.length - (r.entries.filter (age ·.stamp now ≤ r.ttl)).length := by
    have hSplit := List.length_eq_length_filter_add (fun c : Cell κ ν => s.ttl < age c.2.stamp now)
      (l := cells)
    simp only [← decide_not, Nat.not_lt] at hSplit
    rw [hPerm.length_eq, hEntries, List.filter_map, List.length_map, List.length_map,
      List.length_map, hSplit, h.ttl]
    exact (Nat.add_sub_cancel ..).symm
  rw [hKept] at hSwept
  refine ⟨⟨h.capacity, h.ttl, _, hSwept, ?_⟩, hCount⟩
  rw [RecencyStore.cleanUp, hEntries, List.filter_map]
  rfl

/-! ## Runs -/

/-- A call is answered alike and keeps the relation. -/
theorem shows_answer (h : Shows s r) (now : Int) (call : StoreCall κ ν) :
    Shows (s.answer now call).1 (r.answer now call).1 ∧
      (s.answer now call).2 = (r.answer now call).2 := by
  cases call with
  | set key value stamp => exact ⟨h.set key value stamp, rfl⟩
  | get key => exact ⟨(h.get key now).1, congrArg StoreAnswer.value (h.get key now).2⟩
  | lastUpdated key => exact ⟨h, congrArg StoreAnswer.stamp (h.lastUpdated? key)⟩
  | cleanUp => exact ⟨(h.cleanUp now).1, congrArg StoreAnswer.count (h.cleanUp now).2⟩
  | size => exact ⟨h, congrArg StoreAnswer.count h.size_eq⟩

/-- A run is answered alike and keeps the relation. -/
theorem shows_serve (h : Shows s r) (calls : List (Int × StoreCall κ ν)) :
    Shows (serve answer s calls).1 (serve RecencyStore.answer r calls).1 ∧
      (serve answer s calls).2 = (serve RecencyStore.answer r calls).2 := by
  -- by induction on the calls, the relation carries from one to the next
  induction calls generalizing s r with
  | nil => exact ⟨h, rfl⟩
  | cons c rest ih =>
    obtain ⟨hNext, hGiven⟩ := shows_answer h c.1 c.2
    obtain ⟨hLast, hOthers⟩ := ih hNext
    exact ⟨hLast, congr (congrArg List.cons hGiven) hOthers⟩

/-- No call changes the capacity of a recency list, and none exceeds it. -/
theorem size_answer_le (h : r.size ≤ r.capacity) (now : Int) (call : StoreCall κ ν) :
    (r.answer now call).1.capacity = r.capacity ∧ (r.answer now call).1.size ≤ r.capacity := by
  cases call with
  | set key value stamp =>
    refine ⟨?_, RecencyStore.size_set_le h key value stamp⟩
    simp only [RecencyStore.answer, RecencyStore.set]
    repeat' split
    all_goals rfl
  | get key =>
    refine ⟨?_, RecencyStore.size_get_le h key now⟩
    simp only [RecencyStore.answer, RecencyStore.get]
    repeat' split
    all_goals rfl
  | lastUpdated key => exact ⟨rfl, h⟩
  | cleanUp => exact ⟨rfl, Nat.le_trans (RecencyStore.size_cleanUp_le r now) h⟩
  | size => exact ⟨rfl, h⟩

theorem size_serve_le (h : r.size ≤ r.capacity) (calls : List (Int × StoreCall κ ν)) :
    (serve RecencyStore.answer r calls).1.capacity = r.capacity ∧
      (serve RecencyStore.answer r calls).1.size ≤ r.capacity := by
  induction calls generalizing r with
  | nil => exact ⟨rfl, h⟩
  | cons c rest ih =>
    obtain ⟨hCapacity, hSize⟩ := size_answer_le h c.1 c.2
    have hRest := ih (hCapacity.symm ▸ hSize)
    rw [hCapacity] at hRest
    exact hRest

omit [DecidableEq κ] in
theorem Shows.entries_eq (h : Shows s r) :
    s.slots.entries = r.entries ∧ (r.entries.map (·.key)).Nodup := by
  obtain ⟨cells, hSound, hEntries⟩ := h.sound
  rw [hSound.toChain.entries_eq, hEntries, List.map_map]
  exact ⟨rfl, hSound.keys_nodup⟩

/-- A new key in a full store takes the place of the least recently used entry. -/
theorem Shows.set_full (h : Shows s r) {key : κ} (new : s.lastUpdated? key = none)
    (full : s.size = s.capacity) (room : s.capacity ≠ 0) (value : ν) (stamp : Int) :
    ∃ oldest rest, s.slots.entries = oldest :: rest ∧
      (s.set key value stamp).slots.entries = rest ++ [⟨key, value, stamp⟩] := by
  have hSet := (h.set key value stamp).entries_eq.1
  rw [h.lastUpdated?, RecencyStore.lastUpdated?, Option.map_eq_none_iff] at new
  rw [h.size_eq, h.capacity] at full
  rw [h.capacity] at room
  cases hEntries : r.entries with
  | nil => exact absurd (full.symm.trans (congrArg List.length hEntries)) room
  | cons oldest rest =>
    refine ⟨oldest, rest, h.entries_eq.1.trans hEntries, hSet.trans ?_⟩
    simp [RecencyStore.set, room, new, full, hEntries]

omit [DecidableEq κ] in
theorem shows_empty (capacity ttl : Nat) :
    Shows (empty capacity ttl : LruStore κ ν) (.empty capacity ttl) :=
  ⟨rfl, rfl, [], Slots.sound_empty, rfl⟩

/-- A bounded store answers every sequence of calls, each with a clock reading of its own, as the
recency list does, and its chain holds the same entries under distinct keys. So it never exceeds
its capacity, and a new key in a full store drops the least recently used entry and no other. -/
theorem serve_eq_recency (capacity ttl : Nat) (calls : List (Int × StoreCall κ ν)) :
    let lru := serve answer (empty capacity ttl) calls
    let list := serve RecencyStore.answer (.empty capacity ttl) calls
    lru.2 = list.2 ∧ lru.1.slots.entries = list.1.entries ∧
      (list.1.entries.map (·.key)).Nodup ∧ lru.1.size ≤ capacity ∧
      ∀ key value stamp, lru.1.lastUpdated? key = none → lru.1.size = capacity → capacity ≠ 0 →
        ∃ oldest rest, lru.1.slots.entries = oldest :: rest ∧
          (lru.1.set key value stamp).slots.entries = rest ++ [⟨key, value, stamp⟩] := by
  intro lru list
  obtain ⟨hShows, hAnswers⟩ := shows_serve (shows_empty capacity ttl) calls
  obtain ⟨hEntries, hKeys⟩ := hShows.entries_eq
  have hEmpty : (RecencyStore.empty capacity ttl : RecencyStore κ ν).size ≤ capacity :=
    Nat.zero_le _
  obtain ⟨hCapacity, hSize⟩ := size_serve_le hEmpty calls
  -- what holds of the list by recency is carried over by the equal entries
  refine ⟨hAnswers, hEntries, hKeys, hShows.size_eq ▸ hSize, ?_⟩
  intro key value stamp hNew hFull hRoom
  have hSame : lru.1.capacity = capacity := hShows.capacity.trans hCapacity
  exact hShows.set_full hNew (hFull.trans hSame.symm) (hSame.symm ▸ hRoom) value stamp

/-- A store of two entries after `a` is used again: a third key drops `b`. -/
theorem serve_eq_recency_third_key :
    let calls : List (Int × StoreCall String Nat) :=
      [(0, .set "a" 1 0), (0, .set "b" 2 0), (5, .get "a")]
    let store := (serve LruStore.answer (empty 2 60) calls).1
    ∃ oldest rest, store.slots.entries = oldest :: rest ∧
      (store.set "c" 3 7).slots.entries = rest ++ [⟨"c", 3, 7⟩] := by
  intro calls store
  exact (serve_eq_recency 2 60 calls).2.2.2.2 "c" 3 7 (by decide) (by decide) (by decide)

end LruStore

end ItemComposition.Cache
