import ItemComposition.Proofs.Cache.LruRecency
import Mathlib.Logic.Relation

/-!
# Intact slots

`Slots.Intact` says what the links, the index and the free list of a bounded store have to be, in
terms of the slots alone: whoever follows the links meets every occupied slot once, each key leads
to its slot, and each slot is either occupied or free. `Slots.Step` is what the operations of a
store do to its slots, one constructor for each primitive of the linked slots.

The proofs go through the cells of `Slots.Sound`, which carry the same information in one list.

## Key results

- `Slots.Sound.intact` / `Slots.Intact.sound`: intact slots are those that hold some cells
- `Slots.Intact.step`, `Slots.Intact.steps`: steps keep the slots intact
- `LruStore.steps_answer`: every call of a store is a sequence of steps
- `LruStore.slots_intact`: the slots are intact throughout every run
-/

namespace ItemComposition.Cache

open Relation (ReflTransGen)

universe u v

variable {κ : Type u} {ν : Type v}

namespace Slots

/-- The neighbour of a slot on the newer side. -/
def newer? (s : Slots κ ν) (slot : Nat) : Option Nat := (s.node? slot).bind (·.newer)

/-- The neighbour of a slot on the older side. -/
def older? (s : Slots κ ν) (slot : Nat) : Option Nat := (s.node? slot).bind (·.older)

/-- The slot that the links lead to from the oldest in a number of steps. -/
def visited (s : Slots κ ν) : Nat → Option Nat
  | 0 => s.oldest
  | n + 1 => (s.visited n).bind s.newer?

/-- The key of the entry in a slot. -/
def keyAt? (s : Slots κ ν) (slot : Nat) : Option κ := (s.entryAt? slot).map (·.key)

/-- The links, the index and the free list agree with each other, and there are no more slots than
entries that may be held at once. -/
structure Intact (s : Slots κ ν) (capacity : Nat) : Prop where
  /-- The links from the oldest slot on lead along the chain and end with it. -/
  visits : ∀ n, s.visited n = s.chain[n]?
  mem_chain : ∀ slot, slot ∈ s.chain ↔ (s.node? slot).isSome
  chain_nodup : s.chain.Nodup
  newest : s.newest = s.chain.getLast?
  inverse : ∀ a b, s.newer? a = some b ↔ s.older? b = some a
  /-- The index leads from the key of each occupied slot to the slot, and holds nothing else. -/
  mem_index : ∀ key slot, (key, slot) ∈ s.index ↔ s.keyAt? slot = some key
  index_nodup : (s.index.map Prod.fst).Nodup
  keys_distinct : ∀ a b key, s.keyAt? a = some key → s.keyAt? b = some key → a = b
  mem_free : ∀ slot, slot ∈ s.free ↔ slot < s.nodes.length ∧ s.node? slot = none
  free_nodup : s.free.Nodup
  /-- No slot is lost, and none is both in use and free. -/
  accounted : (s.chain ++ s.free).Perm (List.range s.nodes.length)
  bounded : s.nodes.length ≤ capacity

/-- One operation on the slots of a store that may hold `capacity` entries. Eviction and sweeping
are removals, of the oldest slot and of the expired ones. -/
inductive Step [DecidableEq κ] (capacity : Nat) : Slots κ ν → Slots κ ν → Prop where
  | moveNewest {s : Slots κ ν} {slot : Nat} (live : (s.node? slot).isSome) :
    Step capacity s (s.moveNewest slot)
  | overwrite {s : Slots κ ν} {slot : Nat} (newest : s.newest = some slot) (value : ν)
      (stamp : Int) :
    Step capacity s
      (s.modify slot fun n => { n with entry := { n.entry with value := value, stamp := stamp } })
  | remove (s : Slots κ ν) (slot : Nat) : Step capacity s (s.remove slot)
  | insert {s : Slots κ ν} {e : Entry κ ν} (new : s.slotOf? e.key = none)
      (room : s.index.length < capacity) :
    Step capacity s (s.insert e)

/-! ## What the cells say about the slots -/

variable {s t : Slots κ ν} {cells a b : List (Cell κ ν)} {c : Cell κ ν} {capacity : Nat}

theorem firstSlot_eq_head? (cells : List (Cell κ ν)) :
    firstSlot none cells = (cells.map Prod.fst).head? := by
  cases cells <;> rfl

theorem lastSlot_eq_getLast? (cells : List (Cell κ ν)) :
    lastSlot none cells = (cells.map Prod.fst).getLast? := by
  rcases List.eq_nil_or_concat cells with rfl | ⟨front, c, rfl⟩
  · rfl
  · rw [List.concat_eq_append, lastSlot_append, List.map_append]
    simp [lastSlot]

theorem entryAt?_eq_none_iff (s : Slots κ ν) (slot : Nat) :
    s.entryAt? slot = none ↔ s.node? slot = none := by
  simp [entryAt?]

theorem live_of_newer? {i j : Nat} (h : s.newer? i = some j) : (s.node? i).isSome := by
  obtain ⟨n, hNode, -⟩ := Option.bind_eq_some_iff.1 h
  simp [hNode]

theorem live_of_older? {i j : Nat} (h : s.older? i = some j) : (s.node? i).isSome := by
  obtain ⟨n, hNode, -⟩ := Option.bind_eq_some_iff.1 h
  simp [hNode]

theorem live_of_keyAt? {slot : Nat} {key : κ} (h : s.keyAt? slot = some key) :
    (s.node? slot).isSome := by
  obtain ⟨e, hEntry, -⟩ := Option.map_eq_some_iff.1 h
  obtain ⟨n, hNode, -⟩ := Option.map_eq_some_iff.1 hEntry
  simp [hNode]

theorem Chain.newer?_eq (h : Chain s (a ++ c :: b)) :
    s.newer? c.1 = (b.map Prod.fst).head? := by
  rw [newer?, h.node?_eq, Option.bind_some, firstSlot_eq_head?]

theorem Chain.older?_eq (h : Chain s (a ++ c :: b)) :
    s.older? c.1 = (a.map Prod.fst).getLast? := by
  rw [older?, h.node?_eq, Option.bind_some, lastSlot_eq_getLast?]

/-- The links lead through the slots of the cells, in their order. -/
theorem Chain.visited_eq (h : Chain s cells) (n : Nat) :
    s.visited n = (cells.map Prod.fst)[n]? := by
  induction n with
  | zero => rw [visited, h.oldest, firstSlot_eq_head?, List.head?_eq_getElem?]
  | succ n ih =>
    rw [visited, ih]
    by_cases hn : n < cells.length
    · -- the cell that was reached is followed by the rest of the chain
      have hCut : cells = cells.take n ++ cells[n] :: cells.drop (n + 1) := by
        rw [List.getElem_cons_drop, List.take_append_drop]
      have hNewer := Chain.newer?_eq (hCut ▸ h)
      rw [List.getElem?_map, List.getElem?_eq_getElem hn, Option.map_some, Option.bind_some,
        hNewer, List.head?_map, List.head?_drop, List.getElem?_map]
    · rw [List.getElem?_eq_none (by simpa using hn), List.getElem?_eq_none (by simp; omega)]
      rfl

theorem Sound.mem_iff (h : Sound s cells) (slot : Nat) :
    slot ∈ cells.map Prod.fst ↔ (s.node? slot).isSome := by
  constructor
  · intro hs
    obtain ⟨c, hc, rfl⟩ := List.mem_map.1 hs
    have hHeld := h.toChain.entryAt?_eq hc
    rw [entryAt?, Option.map_eq_some_iff] at hHeld
    obtain ⟨n, hNode, -⟩ := hHeld
    simp [hNode]
  · intro hs
    exact h.occupied slot (by simpa [entryAt?] using hs)

/-- The cells can be cut at every occupied slot. -/
theorem Sound.exists_cut (h : Sound s cells) {slot : Nat} (live : (s.node? slot).isSome) :
    ∃ a c b, cells = a ++ c :: b ∧ c.1 = slot := by
  obtain ⟨c, hc, rfl⟩ := List.mem_map.1 ((h.mem_iff slot).2 live)
  obtain ⟨a, b, rfl⟩ := List.append_of_mem hc
  exact ⟨a, c, b, rfl, rfl⟩

theorem Sound.newer?_iff_older? (h : Sound s cells) (i j : Nat) :
    s.newer? i = some j ↔ s.older? j = some i := by
  constructor
  · intro hNewer
    obtain ⟨a, c, b, rfl, rfl⟩ := h.exists_cut (live_of_newer? hNewer)
    -- the list of cells is cut at the slot: its neighbour on one side is read off the other side's
    -- head
    rw [h.toChain.newer?_eq] at hNewer
    cases b with
    | nil => cases hNewer
    | cons d b =>
      obtain rfl : d.1 = j := by simpa using hNewer
      rw [List.append_cons] at h
      simp [h.toChain.older?_eq]
  · intro hOlder
    obtain ⟨a, d, b, rfl, rfl⟩ := h.exists_cut (live_of_older? hOlder)
    rw [h.toChain.older?_eq] at hOlder
    rcases List.eq_nil_or_concat a with rfl | ⟨a, c, rfl⟩
    · cases hOlder
    · rw [List.concat_eq_append] at *
      obtain rfl : c.1 = i := by simpa using hOlder
      rw [List.append_assoc] at h
      simp [Chain.newer?_eq (b := d :: b) h.toChain]

theorem Sound.keyAt?_iff (h : Sound s cells) (slot : Nat) (key : κ) :
    s.keyAt? slot = some key ↔ ∃ c ∈ cells, c.2.key = key ∧ c.1 = slot := by
  constructor
  · intro hKey
    obtain ⟨e, hEntry, rfl⟩ := Option.map_eq_some_iff.1 hKey
    obtain ⟨c, hc, rfl⟩ := List.mem_map.1 (h.occupied slot (by simp [hEntry]))
    rw [h.toChain.entryAt?_eq hc] at hEntry
    exact ⟨c, hc, by cases hEntry; rfl, rfl⟩
  · rintro ⟨c, hc, rfl, rfl⟩
    rw [keyAt?, h.toChain.entryAt?_eq hc]
    rfl

/-- Every slot is that of a cell or free, and none is listed twice. -/
theorem Sound.perm_range (h : Sound s cells) :
    (cells.map Prod.fst ++ s.free).Perm (List.range s.nodes.length) := by
  have hNodup : (cells.map Prod.fst ++ s.free).Nodup := by
    -- no slot is both in use and free, and each one of the vector is one or the other
    refine List.nodup_append.2 ⟨h.nodup, h.free_nodup, fun i hi j hj heq => ?_⟩
    subst heq
    obtain ⟨c, hc, rfl⟩ := List.mem_map.1 hi
    have hEmpty := ((h.mem_free c.1).1 hj).2
    rw [h.toChain.entryAt?_eq hc] at hEmpty
    cases hEmpty
  refine (List.perm_ext_iff_of_nodup hNodup List.nodup_range).2 fun slot => ?_
  rw [List.mem_append, List.mem_range, h.mem_iff, h.mem_free, entryAt?_eq_none_iff]
  cases hNode : s.node? slot with
  | none => simp
  | some n =>
    have hLt : slot < s.nodes.length :=
      lt_length_of_entryAt? (e := n.entry) (by simp [entryAt?, hNode])
    simp [hLt]

/-- Slots that hold cells are intact. -/
theorem Sound.intact (h : Sound s cells) (bounded : s.nodes.length ≤ capacity) :
    s.Intact capacity where
  visits n := by rw [h.toChain.chain_eq, h.toChain.visited_eq]
  mem_chain slot := by rw [h.toChain.chain_eq, h.mem_iff]
  chain_nodup := h.toChain.chain_eq ▸ h.nodup
  newest := by rw [h.toChain.chain_eq, h.newest, lastSlot_eq_getLast?]
  inverse := h.newer?_iff_older?
  mem_index key slot := by
    rw [h.indexed.mem_iff, h.keyAt?_iff, List.mem_map]
    simp only [Prod.mk.injEq]
  index_nodup := by
    rw [(h.indexed.map Prod.fst).nodup_iff, List.map_map]
    exact h.keys_nodup
  -- two slots with one key hold the same cell, since the keys of the cells differ
  keys_distinct i j key hi hj := by
    obtain ⟨c, hc, rfl, rfl⟩ := (h.keyAt?_iff i key).1 hi
    obtain ⟨d, hd, hKey, rfl⟩ := (h.keyAt?_iff j c.2.key).1 hj
    rw [List.inj_on_of_nodup_map h.keys_nodup hd hc hKey]
  mem_free slot := by rw [h.mem_free, entryAt?_eq_none_iff]
  free_nodup := h.free_nodup
  accounted := by
    rw [h.toChain.chain_eq]
    exact h.perm_range
  bounded := bounded

/-! ## Intact slots hold cells -/

/-- A slot of the chain leads to the next one. -/
theorem Intact.newer?_eq (h : s.Intact capacity) {front rest : List Nat} {slot : Nat}
    (cut : s.chain = front ++ slot :: rest) : s.newer? slot = rest.head? := by
  have hHere : s.visited front.length = some slot := by
    rw [h.visits, cut, List.getElem?_append_right (Nat.le_refl _), Nat.sub_self]
    rfl
  have hNext : s.visited (front.length + 1) = rest.head? := by
    rw [h.visits, cut, List.getElem?_append_right (Nat.le_add_right _ 1),
      Nat.add_sub_cancel_left, List.head?_eq_getElem?]
    rfl
  rwa [visited, hHere] at hNext

/-- A slot of the chain leads back to the one before. -/
theorem Intact.older?_eq (h : s.Intact capacity) {front rest : List Nat} {slot : Nat}
    (cut : s.chain = front ++ slot :: rest) : s.older? slot = front.getLast? := by
  rcases List.eq_nil_or_concat front with rfl | ⟨front, prev, rfl⟩
  · -- what comes before the first slot would be in the chain and lead to the first slot again
    cases hOlder : s.older? slot with
    | none => rfl
    | some prev =>
      have hNewer := (h.inverse prev slot).2 hOlder
      obtain ⟨front, back, hPrev⟩ :=
        List.append_of_mem ((h.mem_chain prev).2 (live_of_newer? hNewer))
      rw [h.newer?_eq hPrev] at hNewer
      cases back with
      | nil => cases hNewer
      | cons next back =>
        obtain rfl : slot = next := by simpa [eq_comm] using hNewer
        have hFirst : s.chain[0]? = some slot := by simp [cut]
        have hAgain : s.chain[front.length + 1]? = some slot := by simp [hPrev]
        have hSame : 0 = front.length + 1 :=
          (List.getElem?_inj (by simp [cut]) h.chain_nodup).1 (hFirst.trans hAgain.symm)
        omega
  · rw [List.concat_eq_append] at *
    rw [List.append_assoc] at cut
    rw [(h.inverse prev slot).1 (h.newer?_eq cut)]
    simp

/-- The part of the chain after some cells is a segment after them. -/
theorem Intact.segment (h : s.Intact capacity) (front : List (Cell κ ν))
    (held : ∀ c ∈ cells, s.entryAt? c.1 = some c.2)
    (cut : s.chain = (front ++ cells).map Prod.fst) :
    Segment s.node? (lastSlot none front) none cells := by
  -- by induction on the cells, each of which joins those in front
  induction cells generalizing front with
  | nil => trivial
  | cons c rest ih =>
    have hCut : s.chain = front.map Prod.fst ++ c.1 :: rest.map Prod.fst := by simp [cut]
    refine ⟨?_, ?_⟩
    · obtain ⟨n, hNode, hEntry⟩ := Option.map_eq_some_iff.1 (held c List.mem_cons_self)
      have hOlder := h.older?_eq hCut
      have hNewer := h.newer?_eq hCut
      rw [older?, hNode, Option.bind_some, ← lastSlot_eq_getLast?] at hOlder
      rw [newer?, hNode, Option.bind_some, ← firstSlot_eq_head?] at hNewer
      rw [hNode, ← hEntry, ← hOlder, ← hNewer]
    · have hRest := ih (front ++ [c]) (fun d hd => held d (List.mem_cons_of_mem c hd))
        (by simp [cut])
      rwa [lastSlot_append] at hRest

/-- Slots that are all occupied are those of some cells. -/
theorem exists_cells (s : Slots κ ν) {slots : List Nat} (live : ∀ i ∈ slots, (s.node? i).isSome) :
    ∃ cells : List (Cell κ ν), cells.map Prod.fst = slots ∧
      ∀ c ∈ cells, s.entryAt? c.1 = some c.2 := by
  induction slots with
  | nil => exact ⟨[], rfl, by simp⟩
  | cons slot rest ih =>
    obtain ⟨cells, hSlots, hHeld⟩ := ih fun i hi => live i (List.mem_cons_of_mem slot hi)
    obtain ⟨n, hNode⟩ := Option.isSome_iff_exists.1 (live slot List.mem_cons_self)
    refine ⟨(slot, n.entry) :: cells, by simp [hSlots], ?_⟩
    intro c hc
    rcases List.mem_cons.1 hc with rfl | hc
    · simp [entryAt?, hNode]
    · exact hHeld c hc

/-- Intact slots hold cells. -/
theorem Intact.sound (h : s.Intact capacity) : ∃ cells, Sound s cells := by
  obtain ⟨cells, hSlots, hHeld⟩ := s.exists_cells fun i hi => (h.mem_chain i).1 hi
  have hNodup : (cells.map Prod.fst).Nodup := hSlots ▸ h.chain_nodup
  have hKeyAt : ∀ c ∈ cells, s.keyAt? c.1 = some c.2.key := fun c hc => by
    rw [keyAt?, hHeld c hc]
    rfl
  have hLinked : Segment s.node? none none cells := h.segment [] hHeld hSlots.symm
  refine ⟨cells, ⟨hLinked, ?_, ?_, hNodup⟩, ?_, ?_, ?_, ?_, h.free_nodup⟩
  · rw [firstSlot_eq_head?, hSlots, List.head?_eq_getElem?, ← h.visits]
    rfl
  · rw [lastSlot_eq_getLast?, hSlots, h.newest]
  · intro slot hs
    rw [hSlots, h.mem_chain]
    simpa [entryAt?] using hs
  · -- two cells with one key have one slot
    refine List.Nodup.map_on (fun c hc d hd hKey => ?_) (List.Nodup.of_map _ hNodup)
    exact List.inj_on_of_nodup_map hNodup hc hd
      (h.keys_distinct c.1 d.1 d.2.key (hKey ▸ hKeyAt c hc) (hKeyAt d hd))
  · have hCellPairs : (cells.map fun c => (c.2.key, c.1)).Nodup := by
      refine List.Nodup.of_map Prod.snd ?_
      rwa [List.map_map]
    refine (List.perm_ext_iff_of_nodup (List.Nodup.of_map _ h.index_nodup) hCellPairs).2 ?_
    rintro ⟨key, slot⟩
    rw [h.mem_index, List.mem_map]
    constructor
    · intro hKey
      have hLive := live_of_keyAt? hKey
      rw [← h.mem_chain, ← hSlots] at hLive
      obtain ⟨c, hc, rfl⟩ := List.mem_map.1 hLive
      rw [hKeyAt c hc] at hKey
      exact ⟨c, hc, by cases hKey; rfl⟩
    · rintro ⟨c, hc, hPair⟩
      cases hPair
      exact hKeyAt c hc
  · intro slot
    rw [h.mem_free, entryAt?_eq_none_iff]

/-! ## Steps -/

section Steps

variable [DecidableEq κ]

omit [DecidableEq κ] in
theorem newest_moveNewest (s : Slots κ ν) (slot : Nat) :
    (s.moveNewest slot).newest = some slot := by
  unfold moveNewest
  split
  · assumption
  · rfl

theorem remove_of_empty {slot : Nat} (h : s.node? slot = none) : s.remove slot = s := by
  simp [remove, unlink, h]

theorem length_nodes_remove (s : Slots κ ν) (slot : Nat) :
    (s.remove slot).nodes.length = s.nodes.length := by
  have hSize := (sameContents_unlink s slot).size
  simp only [remove]
  split
  · exact hSize
  · simpa using hSize

/-- There is one slot more only if none was free. -/
theorem length_nodes_insert (s : Slots κ ν) (e : Entry κ ν) :
    (s.insert e).nodes.length = s.nodes.length + if s.free = [] then 1 else 0 := by
  cases hFree : s.free <;> simp [insert, hFree, (sameContents_pushNewest _ _).size]

omit [DecidableEq κ] in
/-- The number of slots is that of the keys and the free slots. -/
theorem Sound.length_nodes (h : Sound s cells) :
    s.nodes.length = s.index.length + s.free.length := by
  have hLength := h.perm_range.length_eq
  rw [List.length_append, List.length_map, List.length_range] at hLength
  rw [h.length_index, hLength]

theorem Sound.new_key (h : Sound s cells) {key : κ} (new : s.slotOf? key = none) :
    key ∉ cells.map (·.2.key) := by
  intro hMem
  obtain ⟨c, hc, rfl⟩ := List.mem_map.1 hMem
  rw [h.slotOf?_eq hc] at new
  cases new

/-- The slot that the index leads to is occupied. -/
theorem Sound.live_of_slotOf? (h : Sound s cells) {key : κ} {slot : Nat}
    (found : s.slotOf? key = some slot) : (s.node? slot).isSome := by
  by_cases hKey : key ∈ cells.map (·.2.key)
  · obtain ⟨c, hc, rfl⟩ := List.mem_map.1 hKey
    rw [h.slotOf?_eq hc] at found
    obtain rfl := Option.some.inj found
    exact (h.mem_iff c.1).1 (List.mem_map_of_mem hc)
  · rw [h.slotOf?_eq_none hKey] at found
    cases found

/-- A step takes intact slots to intact slots, and gives no slot back. -/
theorem Intact.step (h : s.Intact capacity) (step : Step capacity s t) :
    t.Intact capacity ∧ s.nodes.length ≤ t.nodes.length := by
  obtain ⟨cells, hSound⟩ := h.sound
  have hBounded := h.bounded
  cases step with
  | @moveNewest slot live =>
    obtain ⟨a, c, b, rfl, rfl⟩ := hSound.exists_cut live
    have hSize := (sameContents_moveNewest s c.1).size
    exact ⟨hSound.moveNewest.intact (by omega), by omega⟩
  | @overwrite slot newest value stamp =>
    -- the newest slot is that of the last cell
    have hLast := hSound.newest
    rw [newest] at hLast
    rcases List.eq_nil_or_concat cells with rfl | ⟨front, c, rfl⟩
    · cases hLast
    · rw [List.concat_eq_append, lastSlot_append] at *
      obtain rfl := Option.some.inj hLast
      have hSize := length_nodes_modify s c.1 fun n =>
        { n with entry := { n.entry with value := value, stamp := stamp } }
      exact ⟨(hSound.overwrite value stamp).intact (by omega), by omega⟩
  | remove slot =>
    have hSize := s.length_nodes_remove slot
    by_cases hLive : (s.node? slot).isSome
    · obtain ⟨a, c, b, rfl, rfl⟩ := hSound.exists_cut hLive
      exact ⟨hSound.remove.intact (by omega), by omega⟩
    · rw [remove_of_empty (by simpa using hLive)]
      exact ⟨h, Nat.le_refl _⟩
  | @insert e new room =>
    obtain ⟨slot, hNew⟩ := hSound.insert (hSound.new_key new)
    have hSize := s.length_nodes_insert e
    have hTotal := hSound.length_nodes
    refine ⟨hNew.intact ?_, by omega⟩
    -- without a free slot there are as many slots as keys, and one key fewer than the capacity
    by_cases hFree : s.free = []
    · rw [if_pos hFree] at hSize
      rw [hFree, List.length_nil] at hTotal
      omega
    · rw [if_neg hFree] at hSize
      omega

theorem Intact.steps (h : s.Intact capacity) (steps : ReflTransGen (Step capacity) s t) :
    t.Intact capacity := by
  induction steps with
  | refl => exact h
  | tail _ step ih => exact (ih.step step).1

/-- Giving up slots one after the other takes one step each. -/
theorem steps_removeAll (capacity : Nat) (s : Slots κ ν) (given : List Nat) :
    ReflTransGen (Step capacity) s (given.foldl Slots.remove s) := by
  induction given generalizing s with
  | nil => exact .refl
  | cons slot rest ih => exact (ih (s.remove slot)).head (.remove s slot)

omit [DecidableEq κ] in
theorem intact_empty (capacity : Nat) : (empty : Slots κ ν).Intact capacity :=
  sound_empty.intact (Nat.zero_le _)

end Steps

end Slots

/-! ## Calls of a store -/

namespace LruStore

open Slots

variable [DecidableEq κ] {s : LruStore κ ν}

theorem steps_set (h : s.slots.Intact s.capacity) (key : κ) (value : ν) (stamp : Int) :
    ReflTransGen (Step s.capacity) s.slots (s.set key value stamp).slots := by
  obtain ⟨cells, hSound⟩ := h.sound
  unfold set
  by_cases hCapacity : s.capacity = 0
  · simp only [if_pos hCapacity, ReflTransGen.refl]
  simp only [if_neg hCapacity]
  cases hFound : s.slots.slotOf? key with
  | some slot =>
    have hMove : Step s.capacity s.slots (s.slots.moveNewest slot) :=
      .moveNewest (hSound.live_of_slotOf? hFound)
    exact (ReflTransGen.single hMove).tail
      (.overwrite (newest_moveNewest s.slots slot) value stamp)
  | none =>
    have hKey := hSound.new_key hFound
    by_cases hFull : s.capacity ≤ s.size
    · have hLength := hSound.length_index
      rw [size, hLength] at hFull
      cases cells with
      | nil => exact absurd (Nat.eq_zero_of_le_zero hFull) hCapacity
      | cons c rest =>
        -- the oldest slot is given up, which leaves room and does not make the key known
        have hRest : (s.slots.remove c.1).Sound rest := hSound.remove (a := [])
        have hNew : (s.slots.remove c.1).slotOf? key = none :=
          hRest.slotOf?_eq_none fun hMem => hKey (List.mem_cons_of_mem _ hMem)
        have hRoom : (s.slots.remove c.1).index.length < s.capacity := by
          have hNodes := hSound.toChain.length_le
          have hBounded := h.bounded
          rw [List.length_cons] at hNodes
          rw [hRest.length_index]
          omega
        have hOldest : s.slots.oldest = some c.1 := hSound.oldest
        simp only [size, hLength, if_pos hFull, hOldest]
        exact (ReflTransGen.single (.remove s.slots c.1)).tail (.insert hNew hRoom)
    · simp only [if_neg hFull]
      exact .single (.insert hFound (Nat.lt_of_not_le hFull))

theorem steps_get (h : s.slots.Intact s.capacity) (key : κ) (now : Int) :
    ReflTransGen (Step s.capacity) s.slots (s.get key now).1.slots := by
  obtain ⟨cells, hSound⟩ := h.sound
  unfold get
  cases hFound : s.slots.slotOf? key with
  | none => exact .refl
  | some slot =>
    have hLive := hSound.live_of_slotOf? hFound
    obtain ⟨n, hNode⟩ := Option.isSome_iff_exists.1 hLive
    simp only [hNode]
    split
    · exact .single (.remove s.slots slot)
    · exact .single (.moveNewest hLive)

/-- A call is a sequence of steps. -/
theorem steps_answer (h : s.slots.Intact s.capacity) (now : Int) (call : StoreCall κ ν) :
    ReflTransGen (Step s.capacity) s.slots (s.answer now call).1.slots := by
  cases call with
  | set key value stamp => exact steps_set h key value stamp
  | get key => exact steps_get h key now
  | lastUpdated key => exact .refl
  | cleanUp => exact steps_removeAll s.capacity s.slots (s.expired now)
  | size => exact .refl

theorem capacity_answer (s : LruStore κ ν) (now : Int) (call : StoreCall κ ν) :
    (s.answer now call).1.capacity = s.capacity := by
  cases call with
  | set key value stamp =>
    simp only [answer, set]
    repeat' split
    all_goals rfl
  | get key =>
    simp only [answer, get]
    repeat' split
    all_goals rfl
  | lastUpdated key => rfl
  | cleanUp => rfl
  | size => rfl

/-- A run is a sequence of steps. -/
theorem steps_serve (h : s.slots.Intact s.capacity) (calls : List (Int × StoreCall κ ν)) :
    ReflTransGen (Step s.capacity) s.slots (serve answer s calls).1.slots := by
  -- by induction on the calls; the slots are intact again when the next one comes
  induction calls generalizing s with
  | nil => exact .refl
  | cons c rest ih =>
    have hCall := steps_answer h c.1 c.2
    have hSame := capacity_answer s c.1 c.2
    have hRest := ih (hSame.symm ▸ h.steps hCall)
    rw [hSame] at hRest
    exact hCall.trans hRest

/-- Each step keeps the slots intact and gives no slot back, and each call of a store whose slots
are intact is a sequence of steps. So the slots are intact throughout every run of a store that
started out empty: the links visit each occupied slot once in both directions, each key leads to
its slot, the other slots are free, and there are never more slots than the capacity. -/
theorem slots_intact (capacity ttl : Nat) :
    (∀ s t : Slots κ ν, s.Intact capacity → Step capacity s t →
      t.Intact capacity ∧ s.nodes.length ≤ t.nodes.length) ∧
    (∀ (s : LruStore κ ν) (now : Int) (call : StoreCall κ ν), s.slots.Intact s.capacity →
      ReflTransGen (Step s.capacity) s.slots (s.answer now call).1.slots) ∧
    ∀ calls : List (Int × StoreCall κ ν),
      let slots := (serve answer (empty capacity ttl) calls).1.slots
      ReflTransGen (Step capacity) .empty slots ∧ slots.Intact capacity := by
  refine ⟨fun s t h step => h.step step, fun s now call h => steps_answer h now call, ?_⟩
  intro calls slots
  have hSteps : ReflTransGen (Step capacity) .empty slots :=
    steps_serve (s := empty capacity ttl) (intact_empty capacity) calls
  exact ⟨hSteps, (intact_empty capacity).steps hSteps⟩

/-- A store of one entry uses its only slot for one key after the other. -/
theorem slots_intact_recycled :
    let calls : List (Int × StoreCall String Nat) :=
      [(0, .set "a" 1 0), (1, .set "b" 2 1), (2, .set "a" 3 2)]
    let slots := (serve LruStore.answer (empty 1 60) calls).1.slots
    slots.Intact 1 ∧ slots.nodes.length = 1 ∧ (slots.remove 0).Intact 1 ∧
      (slots.remove 0).free = [0] := by
  intro calls slots
  obtain ⟨hStep, -, hRun⟩ := slots_intact (κ := String) (ν := Nat) 1 60
  have hIntact := (hRun calls).2
  exact ⟨hIntact, by decide, (hStep slots _ hIntact (.remove slots 0)).1, by decide⟩

end LruStore

end ItemComposition.Cache
