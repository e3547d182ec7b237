import ItemComposition.Proofs.Cache.LinkedSlots
import ItemComposition.Proofs.DistinctKeys
import Mathlib.Data.List.Perm.Subperm

/-!
# Contents of linked slots

`Slots.Sound s cells` is the invariant of a bounded store's slots: the chain visits `cells`, no
other slot is occupied, the index leads from each key to its slot, and the free list holds the
empty slots. Each operation of a store is one equation on `cells`.

## Key results

- `Slots.Sound.slotOf?_eq` / `Slots.Sound.slotOf?_eq_none`: what the index answers
- `Slots.Sound.moveNewest`, `Slots.Sound.overwrite`, `Slots.Sound.remove`, `Slots.Sound.insert`:
  what an operation does to `cells`
- `Slots.Chain.entries_eq`: the entries that the chain leads to
-/

namespace ItemComposition.Cache

universe u v

namespace Slots

variable {κ : Type u} {ν : Type v}

/-- The slots hold exactly `cells`, the oldest first. -/
structure Sound (s : Slots κ ν) (cells : List (Cell κ ν)) : Prop extends Chain s cells where
  /-- Nothing is occupied outside the chain. -/
  occupied : ∀ slot, (s.entryAt? slot).isSome → slot ∈ cells.map Prod.fst
  keys_nodup : (cells.map (·.2.key)).Nodup
  indexed : s.index.Perm (cells.map fun c => (c.2.key, c.1))
  mem_free : ∀ slot, slot ∈ s.free ↔ slot < s.nodes.length ∧ s.entryAt? slot = none
  free_nodup : s.free.Nodup

theorem sound_empty : Sound (empty : Slots κ ν) [] where
  linked := trivial
  oldest := rfl
  newest := rfl
  nodup := List.nodup_nil
  occupied slot h := by cases h
  keys_nodup := List.nodup_nil
  indexed := List.Perm.refl _
  mem_free slot := by simp [empty]
  free_nodup := List.nodup_nil

/-! ## The occupied slots -/

/-- A chain depends on the nodes of its own slots and on the two ends only. -/
theorem Chain.congr {s t : Slots κ ν} {cells : List (Cell κ ν)} (h : Chain s cells)
    (same : ∀ slot ∈ cells.map Prod.fst, t.node? slot = s.node? slot)
    (oldest : t.oldest = s.oldest) (newest : t.newest = s.newest) : Chain t cells :=
  ⟨h.linked.congr same, oldest.trans h.oldest, newest.trans h.newest, h.nodup⟩

theorem Chain.entryAt?_eq {s : Slots κ ν} {cells : List (Cell κ ν)} (h : Chain s cells)
    {c : Cell κ ν} (hc : c ∈ cells) : s.entryAt? c.1 = some c.2 := h.linked.entry hc

theorem lt_length_of_entryAt? {s : Slots κ ν} {slot : Nat} {e : Entry κ ν}
    (h : s.entryAt? slot = some e) : slot < s.nodes.length := by
  by_contra hge
  rw [entryAt?, node?, List.getElem?_eq_none (Nat.le_of_not_lt hge)] at h
  cases h

/-- There are at least as many slots as cells. -/
theorem Chain.length_le {s : Slots κ ν} {cells : List (Cell κ ν)} (h : Chain s cells) :
    cells.length ≤ s.nodes.length := by
  -- the slots of the cells are distinct and all below the number of slots
  have hSub : cells.map Prod.fst ⊆ List.range s.nodes.length := by
    intro slot hs
    obtain ⟨c, hc, rfl⟩ := List.mem_map.1 hs
    exact List.mem_range.2 (lt_length_of_entryAt? (h.entryAt?_eq hc))
  have hLen := (h.nodup.subperm hSub).length_le
  rwa [List.length_map, List.length_range] at hLen

/-- Following the links visits the cells of a segment. -/
theorem Segment.chainFrom_eq {s : Slots κ ν} {before : Option Nat} {cells : List (Cell κ ν)}
    (h : Segment s.node? before none cells) {bound : Nat} (enough : cells.length ≤ bound) :
    s.chainFrom bound (firstSlot none cells) = cells.map Prod.fst := by
  -- by induction on the cells; the bound only has to last for as many steps
  induction cells generalizing before bound with
  | nil => cases bound <;> rfl
  | cons c rest ih =>
    cases bound with
    | zero => exact absurd enough (by simp)
    | succ bound =>
      rw [firstSlot, chainFrom, h.1]
      simp only [List.map_cons]
      rw [ih h.2 (Nat.le_of_succ_le_succ enough)]

theorem Chain.chain_eq {s : Slots κ ν} {cells : List (Cell κ ν)} (h : Chain s cells) :
    s.chain = cells.map Prod.fst := by
  rw [chain, h.oldest]
  exact h.linked.chainFrom_eq h.length_le

/-- The entries that the chain leads to, the least recently used first. -/
theorem Chain.entries_eq {s : Slots κ ν} {cells : List (Cell κ ν)} (h : Chain s cells) :
    s.entries = cells.map Prod.snd := by
  rw [entries, h.chain_eq, List.filterMap_map, ← List.filterMap_eq_map]
  exact List.filterMap_congr fun c hc => h.entryAt?_eq hc

/-! ## The index -/

section Index

variable [DecidableEq κ] {s : Slots κ ν} {cells : List (Cell κ ν)}

omit [DecidableEq κ] in
theorem Sound.length_index (h : Sound s cells) : s.index.length = cells.length := by
  rw [h.indexed.length_eq, List.length_map]

/-- The index leads from the key of a cell to its slot. -/
theorem Sound.slotOf?_eq (h : Sound s cells) {c : Cell κ ν} (hc : c ∈ cells) :
    s.slotOf? c.2.key = some c.1 := by
  have hMem : (c.2.key, c.1) ∈ s.index := h.indexed.mem_iff.2 (List.mem_map_of_mem hc)
  have hKeys : (s.index.map Prod.fst).Nodup := by
    rw [(h.indexed.map Prod.fst).nodup_iff, List.map_map]
    exact h.keys_nodup
  rw [slotOf?, find?_key_of_mem hKeys hMem]
  rfl

/-- The index knows no other keys. -/
theorem Sound.slotOf?_eq_none (h : Sound s cells) {key : κ} (hk : key ∉ cells.map (·.2.key)) :
    s.slotOf? key = none := by
  rw [slotOf?, Option.map_eq_none_iff, List.find?_eq_none]
  intro p hp
  obtain ⟨c, hc, rfl⟩ := List.mem_map.1 (h.indexed.mem_iff.1 hp)
  have hne : c.2.key ≠ key := fun heq => hk (heq ▸ List.mem_map_of_mem hc)
  simpa using hne

end Index

/-! ## Operations -/

/-- Relinking keeps the invariant. -/
theorem Sound.relink {s t : Slots κ ν} {cells cells' : List (Cell κ ν)} (h : Sound s cells)
    (same : SameContents t s) (chain : Chain t cells') (perm : cells'.Perm cells) :
    Sound t cells' where
  toChain := chain
  occupied slot hs := by
    rw [same.entries] at hs
    -- only the links are new: keys, index and the free slots do not depend on the order of the
    -- cells
    exact (perm.map Prod.fst).mem_iff.2 (h.occupied slot hs)
  keys_nodup := (perm.map (·.2.key)).nodup_iff.2 h.keys_nodup
  indexed := by
    rw [same.index]
    exact h.indexed.trans (perm.symm.map _)
  mem_free slot := by rw [same.free, same.size, same.entries, h.mem_free]
  free_nodup := by
    rw [same.free]
    exact h.free_nodup

/-- A cell becomes the newest; the others keep their order. -/
theorem Sound.moveNewest {s : Slots κ ν} {a b : List (Cell κ ν)} {c : Cell κ ν}
    (h : Sound s (a ++ c :: b)) : Sound (s.moveNewest c.1) (a ++ b ++ [c]) := by
  refine h.relink (sameContents_moveNewest s c.1) (chain_moveNewest h.toChain) ?_
  rw [List.append_assoc]
  exact (List.perm_append_singleton c b).append_left a

/-- The newest cell takes another value and stamp. -/
theorem Sound.overwrite {s : Slots κ ν} {cells : List (Cell κ ν)} {c : Cell κ ν}
    (h : Sound s (cells ++ [c])) (value : ν) (stamp : Int) :
    Sound
      (s.modify c.1 fun n => { n with entry := { n.entry with value := value, stamp := stamp } })
      (cells ++ [(c.1, { c.2 with value := value, stamp := stamp })]) := by
  obtain ⟨-, -, hFresh, -, -⟩ := h.toChain.nodup_parts
  have hNode := h.toChain.node?_eq
  let f := fun n : Node κ ν => { n with entry := { n.entry with value := value, stamp := stamp } }
  have hOther : ∀ slot, slot ≠ c.1 → (s.modify c.1 f).node? slot = s.node? slot :=
    fun slot hne => node?_modify_of_ne s f hne.symm
  -- value and stamp are no part of what the index and the free slots depend on
  have hNone : ∀ slot, (s.modify c.1 f).entryAt? slot = none ↔ s.entryAt? slot = none := by
    intro slot
    rw [entryAt?, node?_modify]
    split <;> simp [entryAt?]
  obtain ⟨hFront, -, -⟩ := segment_append.1 h.linked
  refine ⟨⟨segment_append.2 ⟨?_, ?_, trivial⟩, ?_, ?_, ?_⟩, ?_, ?_, ?_, ?_, h.free_nodup⟩
  · exact hFront.congr fun slot hs => hOther slot fun heq => hFresh (heq ▸ hs)
  · rw [node?_modify_self, hNode]
    rfl
  · rw [oldest_modify, h.oldest, firstSlot_append, firstSlot_append]
    rfl
  · rw [newest_modify, h.newest, lastSlot_append, lastSlot_append]
    rfl
  · simpa using h.nodup
  · intro slot hs
    have hs' : (s.entryAt? slot).isSome := by
      rw [Option.isSome_iff_ne_none] at hs ⊢
      exact fun hn => hs ((hNone slot).2 hn)
    simpa using h.occupied slot hs'
  · simpa using h.keys_nodup
  · simpa using h.indexed
  · intro slot
    rw [free_modify, length_nodes_modify, hNone, h.mem_free]

section Keyed

variable [DecidableEq κ] {s : Slots κ ν}

/-- A slot that is emptied after it was unlinked leaves the others in order. -/
theorem Sound.vacate {a b : List (Cell κ ν)} {c : Cell κ ν} (h : Sound s (a ++ c :: b))
    {t : Slots κ ν} (empty : t.entryAt? c.1 = none)
    (others : ∀ i, i ≠ c.1 → t.node? i = (s.unlink c.1).node? i)
    (oldest : t.oldest = (s.unlink c.1).oldest) (newest : t.newest = (s.unlink c.1).newest)
    (index : t.index = s.index.filter (·.1 ≠ c.2.key)) (free : t.free = c.1 :: s.free)
    (size : t.nodes.length = s.nodes.length) : Sound t (a ++ b) := by
  have hc : s.entryAt? c.1 = some c.2 := h.toChain.entryAt?_eq (by simp)
  -- unlinking changes links only, so all other slots hold what they held
  have hOther : ∀ i, i ≠ c.1 → t.entryAt? i = s.entryAt? i := fun i hne => by
    rw [entryAt?, others i hne]
    exact (sameContents_unlink s c.1).entries i
  obtain ⟨-, -, hca, hcb, -⟩ := h.toChain.nodup_parts
  have hSub : List.Sublist (a ++ b) (a ++ c :: b) :=
    (List.sublist_cons_self c b).append_left a
  refine ⟨?_, ?_, h.keys_nodup.sublist (hSub.map _), ?_, ?_, ?_⟩
  · refine (chain_unlink h.toChain).congr (fun i hi => others i fun heq => ?_) oldest newest
    rw [heq, List.map_append, List.mem_append] at hi
    exact hi.elim hca hcb
  · intro i hi
    have hne : i ≠ c.1 := fun heq => by
      rw [heq, empty] at hi
      cases hi
    rw [hOther i hne] at hi
    have hMem := h.occupied i hi
    rw [List.map_append, List.map_cons, List.mem_append, List.mem_cons] at hMem
    rw [List.map_append, List.mem_append]
    exact hMem.imp_right fun hr => hr.resolve_left hne
  · -- the index loses the pair of the key that is given up, and no other
    rw [index]
    refine (h.indexed.filter _).trans (List.Perm.of_eq ?_)
    rw [List.filter_map]
    exact congrArg _ (filter_key_ne (f := fun d : Cell κ ν => d.2.key) h.keys_nodup)
  · intro i
    rw [free, size, List.mem_cons, h.mem_free]
    by_cases heq : i = c.1
    · have hLt := lt_length_of_entryAt? hc
      simp only [heq, empty, hLt, true_or, and_self]
    · simp only [hOther i heq, heq, false_or]
  · -- the slot was occupied, so it is new among the free ones
    rw [free]
    refine List.nodup_cons.2 ⟨fun hMem => ?_, h.free_nodup⟩
    rw [h.mem_free, hc] at hMem
    cases hMem.2

/-- A slot that is given up leaves the others in order. -/
theorem Sound.remove {a b : List (Cell κ ν)} {c : Cell κ ν} (h : Sound s (a ++ c :: b)) :
    Sound (s.remove c.1) (a ++ b) := by
  have same := sameContents_unlink s c.1
  have hHeld : (s.unlink c.1).entryAt? c.1 = some c.2 := by
    rw [same.entries, h.toChain.entryAt?_eq (by simp)]
  obtain ⟨n, hNode, hEntry⟩ := Option.map_eq_some_iff.1 hHeld
  -- after unlinking the slot still holds its entry, so its key can be read
  have hRemove : s.remove c.1 =
      { s.unlink c.1 with
        nodes := (s.unlink c.1).nodes.set c.1 none
        index := (s.unlink c.1).index.filter (·.1 ≠ c.2.key)
        free := c.1 :: (s.unlink c.1).free } := by
    simp only [Slots.remove, hNode, hEntry]
  rw [hRemove]
  refine h.vacate ?_ ?_ rfl rfl ?_ ?_ ?_
  · simp only [entryAt?, node?, List.getElem?_set_self']
    cases (s.unlink c.1).nodes[c.1]? <;> rfl
  · intro i hne
    simp only [node?, List.getElem?_set_ne hne.symm]
  · simp only [same.index]
  · simp only [same.free]
  · simp only [List.length_set, same.size]

/-- Giving up several slots, in whatever order, leaves the others in order. -/
theorem Sound.removeAll {cells : List (Cell κ ν)} (h : Sound s cells) {slots : List Nat}
    (nodup : slots.Nodup) (occupied : slots ⊆ cells.map Prod.fst) :
    Sound (slots.foldl Slots.remove s) (cells.filter (·.1 ∉ slots)) := by
  -- by induction on the slots, each of which is somewhere in the chain that is left
  induction slots generalizing s cells with
  | nil =>
    rw [List.filter_eq_self.2 (by simp)]
    exact h
  | cons slot rest ih =>
    obtain ⟨hFresh, hRest⟩ := List.nodup_cons.1 nodup
    obtain ⟨c, hc, rfl⟩ := List.mem_map.1 (occupied List.mem_cons_self)
    obtain ⟨a, b, rfl⟩ := List.append_of_mem hc
    have hOthers : (a ++ c :: b).filter (·.1 ≠ c.1) = a ++ b := filter_key_ne h.nodup
    have hSub : rest ⊆ (a ++ b).map Prod.fst := by
      intro i hi
      obtain ⟨d, hd, rfl⟩ := List.mem_map.1 (occupied (List.mem_cons_of_mem _ hi))
      have hne : d.1 ≠ c.1 := fun heq => hFresh (heq ▸ hi)
      rw [← hOthers]
      exact List.mem_map_of_mem (List.mem_filter.2 ⟨hd, decide_eq_true hne⟩)
    have hLeft := ih h.remove hRest hSub
    rw [← hOthers, List.filter_filter] at hLeft
    rw [List.foldl_cons]
    convert hLeft using 2
    funext d
    simp [Bool.and_comm]

/-- An entry that is put into an empty slot and linked becomes the newest cell. -/
theorem Sound.place {cells : List (Cell κ ν)} (h : Sound s cells) {t : Slots κ ν} {slot : Nat}
    {entry : Entry κ ν} (empty : s.entryAt? slot = none)
    (newKey : entry.key ∉ cells.map (·.2.key)) (node : t.node? slot = some ⟨entry, none, none⟩)
    (others : ∀ i, i ≠ slot → t.node? i = s.node? i)
    (oldest : t.oldest = s.oldest) (newest : t.newest = s.newest)
    (index : t.index = s.index.filter (·.1 ≠ entry.key) ++ [(entry.key, slot)])
    (free : t.free = s.free.filter (· ≠ slot))
    (size : ∀ i, i < t.nodes.length ↔ i < s.nodes.length ∨ i = slot) :
    Sound (t.pushNewest slot) (cells ++ [(slot, entry)]) := by
  have hFresh : slot ∉ cells.map Prod.fst := fun hMem => by
    obtain ⟨c, hc, rfl⟩ := List.mem_map.1 hMem
    rw [h.toChain.entryAt?_eq hc] at empty
    cases empty
  have hChain : Chain t cells :=
    h.toChain.congr (fun i hi => others i fun heq => hFresh (heq ▸ hi)) oldest newest
  have hHeld : t.entryAt? slot = some entry := by
    rw [entryAt?, node]
    rfl
  have hOther : ∀ i, i ≠ slot → t.entryAt? i = s.entryAt? i := fun i hne => by
    rw [entryAt?, others i hne]
    rfl
  have same := sameContents_pushNewest t slot
  refine ⟨chain_pushNewest (c := (slot, entry)) hChain hHeld hFresh, ?_, ?_, ?_, ?_, ?_⟩
  · intro i hi
    rw [same.entries] at hi
    rw [List.map_append, List.mem_append]
    by_cases heq : i = slot
    · exact Or.inr (List.mem_singleton.2 heq)
    · rw [hOther i heq] at hi
      exact Or.inl (h.occupied i hi)
  · rw [List.map_append]
    refine List.nodup_append.2 ⟨h.keys_nodup, List.nodup_singleton _, ?_⟩
    intro k hk l hl heq
    have hEntry : k = entry.key := heq.trans (List.mem_singleton.1 hl)
    exact newKey (hEntry ▸ hk)
  · -- the key is new, so the index loses nothing
    have hKept : s.index.filter (·.1 ≠ entry.key) = s.index := by
      refine List.filter_eq_self.2 fun p hp => ?_
      obtain ⟨c, hc, rfl⟩ := List.mem_map.1 (h.indexed.mem_iff.1 hp)
      have hne : c.2.key ≠ entry.key := fun heq => newKey (heq ▸ List.mem_map_of_mem hc)
      simpa using hne
    rw [same.index, index, hKept, List.map_append]
    exact h.indexed.append_right _
  · intro i
    rw [same.free, same.size, same.entries, free, size, List.mem_filter, h.mem_free]
    by_cases heq : i = slot
    · simp [heq, hHeld]
    · simp [heq, hOther i heq]
  · rw [same.free, free]
    exact h.free_nodup.filter _

/-- The entry of a new key becomes the newest cell. -/
theorem Sound.insert {cells : List (Cell κ ν)} (h : Sound s cells) {e : Entry κ ν}
    (newKey : e.key ∉ cells.map (·.2.key)) :
    ∃ slot, Sound (s.insert e) (cells ++ [(slot, e)]) := by
  cases hFree : s.free with
  | nil =>
    -- no slot is free, so there is one more
    refine ⟨s.nodes.length, ?_⟩
    rw [Slots.insert, hFree]
    refine h.place ?_ newKey ?_ ?_ rfl rfl rfl ?_ ?_
    · simp [entryAt?, node?]
    · simp [node?]
    · intro i hne
      rcases Nat.lt_or_gt_of_ne hne with hlt | hgt
      · simp only [node?, List.getElem?_append_left hlt]
      · simp only [node?]
        rw [List.getElem?_eq_none (Nat.le_of_lt hgt), List.getElem?_eq_none]
        simp only [List.length_append, List.length_singleton]
        omega
    · simp [hFree]
    · intro i
      simp only [List.length_append, List.length_singleton]
      omega
  | cons slot free =>
    -- a free slot is empty, and free no longer
    refine ⟨slot, ?_⟩
    obtain ⟨hLt, hEmpty⟩ := (h.mem_free slot).1 (by simp [hFree])
    have hNodup := h.free_nodup
    rw [hFree, List.nodup_cons] at hNodup
    rw [Slots.insert, hFree]
    refine h.place hEmpty newKey ?_ ?_ rfl rfl rfl ?_ ?_
    · simp [node?, hLt]
    · intro i hne
      simp only [node?, List.getElem?_set_ne hne.symm]
    · have hKept : free.filter (· ≠ slot) = free :=
        List.filter_eq_self.2 fun i hi => by
          have hne : i ≠ slot := fun heq => hNodup.1 (heq ▸ hi)
          simpa using hne
      rw [hFree, List.filter_cons_of_neg (by simp), hKept]
    · intro i
      simp only [List.length_set]
      omega

end Keyed

end Slots

end ItemComposition.Cache
