import ItemComposition.Cache.Lru
import Mathlib.Data.List.Nodup

/-!
# Chains of linked slots

The occupied slots of a bounded store form one doubly linked chain. `Slots.Chain s cells` says
that the chain of `s` visits exactly `cells`, the oldest first, and that the links in both
directions and the two ends agree with that order. A chain is cut and joined through
`Slots.Segment`, the part of it between two given neighbours.

## Key results

- `Slots.chain_unlink`: taking a slot out leaves the chain of the others
- `Slots.chain_pushNewest`: a slot outside the chain becomes its newest
- `Slots.chain_moveNewest`: a slot of the chain becomes its newest, the others keep their order
- `Slots.sameContents_moveNewest`: relinking changes no entry
-/

namespace ItemComposition.Cache

universe u v

/-- An occupied slot and the entry in it. -/
abbrev Cell (κ : Type u) (ν : Type v) : Type (max u v) := Nat × Entry κ ν

namespace Slots

variable {κ : Type u} {ν : Type v}

/-- The entry in a slot, whatever its links. -/
def entryAt? (s : Slots κ ν) (slot : Nat) : Option (Entry κ ν) := (s.node? slot).map (·.entry)

/-- The slot of the first cell, or `after` when there is none. -/
def firstSlot (after : Option Nat) : List (Cell κ ν) → Option Nat
  | [] => after
  | c :: _ => some c.1

/-- The slot of the last cell, or `before` when there is none. -/
def lastSlot (before : Option Nat) : List (Cell κ ν) → Option Nat
  | [] => before
  | c :: rest => lastSlot (some c.1) rest

/-- The nodes hold `cells`, each linked to its neighbours. Before the first comes `before`, and
after the last comes `after`. -/
def Segment (node? : Nat → Option (Node κ ν)) (before after : Option Nat) :
    List (Cell κ ν) → Prop
  | [] => True
  | c :: rest =>
    node? c.1 = some ⟨c.2, before, firstSlot after rest⟩ ∧ Segment node? (some c.1) after rest

/-- The chain of the slots visits exactly `cells`, in this order. -/
structure Chain (s : Slots κ ν) (cells : List (Cell κ ν)) : Prop where
  linked : Segment s.node? none none cells
  oldest : s.oldest = firstSlot none cells
  newest : s.newest = lastSlot none cells
  nodup : (cells.map Prod.fst).Nodup

/-! ## First and last slots -/

theorem firstSlot_append (after : Option Nat) (a b : List (Cell κ ν)) :
    firstSlot after (a ++ b) = firstSlot (firstSlot after b) a := by
  cases a <;> rfl

theorem lastSlot_append (before : Option Nat) (a b : List (Cell κ ν)) :
    lastSlot before (a ++ b) = lastSlot (lastSlot before a) b := by
  induction a generalizing before with
  | nil => rfl
  | cons c rest ih => exact ih (some c.1)

theorem mem_of_firstSlot {cells : List (Cell κ ν)} {slot : Nat}
    (h : firstSlot none cells = some slot) : slot ∈ cells.map Prod.fst := by
  cases cells with
  | nil => cases h
  | cons c rest =>
    obtain rfl := Option.some.inj h
    exact List.mem_cons_self

theorem mem_of_lastSlot {before : Option Nat} {cells : List (Cell κ ν)} {slot : Nat}
    (h : lastSlot before cells = some slot) :
    before = some slot ∨ slot ∈ cells.map Prod.fst := by
  induction cells generalizing before with
  | nil => exact Or.inl h
  | cons c rest ih =>
    right
    rcases ih h with hc | hmem
    · obtain rfl := Option.some.inj hc
      exact List.mem_cons_self
    · exact List.mem_cons_of_mem _ hmem

theorem exists_lastSlot_some (slot : Nat) (cells : List (Cell κ ν)) :
    ∃ last, lastSlot (some slot) cells = some last := by
  induction cells generalizing slot with
  | nil => exact ⟨slot, rfl⟩
  | cons c rest ih => exact ih c.1

/-! ## Segments -/

theorem segment_append {node? : Nat → Option (Node κ ν)} {before after : Option Nat}
    {a b : List (Cell κ ν)} :
    Segment node? before after (a ++ b) ↔
      Segment node? before (firstSlot after b) a ∧ Segment node? (lastSlot before a) after b := by
  induction a generalizing before with
  | nil => simp [Segment, lastSlot]
  | cons c rest ih =>
    simp only [List.cons_append, Segment, firstSlot_append, lastSlot, ih, and_assoc]

/-- A segment depends on the nodes of its own slots only. -/
theorem Segment.congr {node? other? : Nat → Option (Node κ ν)} {before after : Option Nat}
    {cells : List (Cell κ ν)} (h : Segment node? before after cells)
    (same : ∀ slot ∈ cells.map Prod.fst, other? slot = node? slot) :
    Segment other? before after cells := by
  induction cells generalizing before with
  | nil => trivial
  | cons c rest ih =>
    refine ⟨?_, ih h.2 fun slot hs => same slot (List.mem_cons_of_mem _ hs)⟩
    rw [same c.1 List.mem_cons_self]
    exact h.1

/-- Every cell of a segment is held by its node. -/
theorem Segment.entry {node? : Nat → Option (Node κ ν)} {before after : Option Nat}
    {cells : List (Cell κ ν)} (h : Segment node? before after cells) {c : Cell κ ν}
    (hc : c ∈ cells) : (node? c.1).map (·.entry) = some c.2 := by
  induction cells generalizing before with
  | nil => cases hc
  | cons d rest ih =>
    rcases List.mem_cons.1 hc with rfl | hc
    · rw [h.1]; rfl
    · exact ih h.2 hc

/-! ## Nodes after an update -/

theorem node?_modify (s : Slots κ ν) (slot i : Nat) (f : Node κ ν → Node κ ν) :
    (s.modify slot f).node? i = if slot = i then (s.node? i).map f else s.node? i := by
  simp only [node?, modify, List.getElem?_modify]
  split <;> cases s.nodes[i]? <;> rfl

@[simp] theorem node?_modify_self (s : Slots κ ν) (slot : Nat) (f : Node κ ν → Node κ ν) :
    (s.modify slot f).node? slot = (s.node? slot).map f := by
  rw [node?_modify, if_pos rfl]

theorem node?_modify_of_ne (s : Slots κ ν) {slot i : Nat} (f : Node κ ν → Node κ ν)
    (h : slot ≠ i) : (s.modify slot f).node? i = s.node? i := by
  rw [node?_modify, if_neg h]

theorem node?_linkNewer_of_ne (s : Slots κ ν) {slot : Option Nat} {i : Nat}
    (newer : Option Nat) (h : slot ≠ some i) :
    (s.linkNewer slot newer).node? i = s.node? i := by
  cases slot with
  | none => rfl
  | some j => exact node?_modify_of_ne s _ fun hj => h (congrArg some hj)

theorem node?_linkOlder_of_ne (s : Slots κ ν) {slot : Option Nat} {i : Nat}
    (older : Option Nat) (h : slot ≠ some i) :
    (s.linkOlder slot older).node? i = s.node? i := by
  cases slot with
  | none => rfl
  | some j => exact node?_modify_of_ne s _ fun hj => h (congrArg some hj)

@[simp] theorem oldest_linkOlder (s : Slots κ ν) (slot older : Option Nat) :
    (s.linkOlder slot older).oldest = s.oldest := by cases slot <;> rfl

@[simp] theorem newest_linkNewer (s : Slots κ ν) (slot newer : Option Nat) :
    (s.linkNewer slot newer).newest = s.newest := by cases slot <;> rfl

/-! ## What relinking leaves alone

Links are the only thing that `linkNewer`, `linkOlder`, `unlink` and `pushNewest` change. -/

@[simp] theorem index_modify (s : Slots κ ν) (slot : Nat) (f : Node κ ν → Node κ ν) :
    (s.modify slot f).index = s.index := rfl

@[simp] theorem free_modify (s : Slots κ ν) (slot : Nat) (f : Node κ ν → Node κ ν) :
    (s.modify slot f).free = s.free := rfl

@[simp] theorem oldest_modify (s : Slots κ ν) (slot : Nat) (f : Node κ ν → Node κ ν) :
    (s.modify slot f).oldest = s.oldest := rfl

@[simp] theorem newest_modify (s : Slots κ ν) (slot : Nat) (f : Node κ ν → Node κ ν) :
    (s.modify slot f).newest = s.newest := rfl

@[simp] theorem length_nodes_modify (s : Slots κ ν) (slot : Nat) (f : Node κ ν → Node κ ν) :
    (s.modify slot f).nodes.length = s.nodes.length := by simp [modify]

theorem entryAt?_modify (s : Slots κ ν) (slot i : Nat) {f : Node κ ν → Node κ ν}
    (hf : ∀ n, (f n).entry = n.entry) : (s.modify slot f).entryAt? i = s.entryAt? i := by
  unfold entryAt?
  rw [node?_modify]
  split
  · cases s.node? i with
    | none => rfl
    | some n => exact congrArg some (hf n)
  · rfl

/-- Two states with the same entries, index, free slots and number of slots. -/
structure SameContents (s t : Slots κ ν) : Prop where
  entries : ∀ slot, s.entryAt? slot = t.entryAt? slot
  index : s.index = t.index
  free : s.free = t.free
  size : s.nodes.length = t.nodes.length

theorem SameContents.trans {s t r : Slots κ ν} (h : SameContents s t) (h' : SameContents t r) :
    SameContents s r :=
  ⟨fun slot => (h.entries slot).trans (h'.entries slot), h.index.trans h'.index,
    h.free.trans h'.free, h.size.trans h'.size⟩

theorem sameContents_modify (s : Slots κ ν) (slot : Nat) {f : Node κ ν → Node κ ν}
    (hf : ∀ n, (f n).entry = n.entry) : SameContents (s.modify slot f) s :=
  ⟨fun i => entryAt?_modify s slot i hf, rfl, rfl, length_nodes_modify s slot f⟩

theorem sameContents_linkNewer (s : Slots κ ν) (slot newer : Option Nat) :
    SameContents (s.linkNewer slot newer) s := by
  cases slot with
  | none => exact ⟨fun _ => rfl, rfl, rfl, rfl⟩
  | some i => exact sameContents_modify s i fun _ => rfl

theorem sameContents_linkOlder (s : Slots κ ν) (slot older : Option Nat) :
    SameContents (s.linkOlder slot older) s := by
  cases slot with
  | none => exact ⟨fun _ => rfl, rfl, rfl, rfl⟩
  | some i => exact sameContents_modify s i fun _ => rfl

theorem sameContents_unlink (s : Slots κ ν) (slot : Nat) : SameContents (s.unlink slot) s := by
  unfold unlink
  split
  · exact ⟨fun _ => rfl, rfl, rfl, rfl⟩
  · rename_i n _
    have hNewer := sameContents_linkNewer s n.older n.newer
    have hOlder := sameContents_linkOlder (s.linkNewer n.older n.newer) n.newer n.older
    have hSlot := sameContents_modify ((s.linkNewer n.older n.newer).linkOlder n.newer n.older) slot
      (f := fun m => { m with older := none, newer := none }) fun _ => rfl
    exact hSlot.trans (hOlder.trans hNewer)

theorem sameContents_pushNewest (s : Slots κ ν) (slot : Nat) :
    SameContents (s.pushNewest slot) s := by
  have hSlot := sameContents_modify s slot
    (f := fun n => { n with older := s.newest, newer := none }) fun _ => rfl
  have hNewer := sameContents_linkNewer
    (s.modify slot fun n => { n with older := s.newest, newer := none }) s.newest (some slot)
  -- `newest` is no part of the contents, so the last update of `pushNewest` is invisible here
  exact ⟨(hNewer.trans hSlot).entries, (hNewer.trans hSlot).index, (hNewer.trans hSlot).free,
    (hNewer.trans hSlot).size⟩

theorem sameContents_moveNewest (s : Slots κ ν) (slot : Nat) :
    SameContents (s.moveNewest slot) s := by
  unfold moveNewest
  split
  · exact ⟨fun _ => rfl, rfl, rfl, rfl⟩
  · exact (sameContents_pushNewest _ slot).trans (sameContents_unlink s slot)

/-! ## Cutting and joining segments -/

/-- Linking the last slot of a segment to another successor. -/
theorem Segment.linkNewer {s : Slots κ ν} {before after : Option Nat} {cells : List (Cell κ ν)}
    (h : Segment s.node? before after cells) (nodup : (cells.map Prod.fst).Nodup)
    (newer : Option Nat) :
    Segment (s.linkNewer (lastSlot none cells) newer).node? before newer cells := by
  rcases List.eq_nil_or_concat cells with rfl | ⟨front, c, rfl⟩
  · trivial
  · rw [List.concat_eq_append] at *
    have hLast : lastSlot none (front ++ [c]) = some c.1 := by rw [lastSlot_append]; rfl
    have hFresh : c.1 ∉ front.map Prod.fst := by
      rw [List.map_append, List.nodup_append] at nodup
      exact fun hmem => nodup.2.2 c.1 hmem c.1 List.mem_cons_self rfl
    obtain ⟨hFront, hc⟩ := segment_append.1 h
    rw [hLast]
    -- only the node of the last cell is updated, and no other cell has its slot
    refine segment_append.2 ⟨hFront.congr fun slot hs => ?_, ?_, trivial⟩
    · exact node?_modify_of_ne s _ fun heq => hFresh (heq ▸ hs)
    · have hNode := hc.1
      rw [Slots.linkNewer, node?_modify_self, hNode]
      rfl

/-- Linking the first slot of a segment to another predecessor. -/
theorem Segment.linkOlder {s : Slots κ ν} {before after : Option Nat} {cells : List (Cell κ ν)}
    (h : Segment s.node? before after cells) (nodup : (cells.map Prod.fst).Nodup)
    (older : Option Nat) :
    Segment (s.linkOlder (firstSlot none cells) older).node? older after cells := by
  cases cells with
  | nil => trivial
  | cons c rest =>
    have hFresh : c.1 ∉ rest.map Prod.fst := (List.nodup_cons.1 nodup).1
    refine ⟨?_, h.2.congr fun slot hs => ?_⟩
    · rw [firstSlot, Slots.linkOlder, node?_modify_self, h.1]
      rfl
    · exact node?_modify_of_ne s _ fun heq => hFresh (heq ▸ hs)

section Cut

variable {s : Slots κ ν} {a b : List (Cell κ ν)} {c : Cell κ ν}

/-- The node of a slot in the middle of a chain. -/
theorem Chain.node?_eq (h : Chain s (a ++ c :: b)) :
    s.node? c.1 = some ⟨c.2, lastSlot none a, firstSlot none b⟩ :=
  (segment_append.1 h.linked).2.1

/-- The slots before, at and after a place of a chain are different. -/
theorem Chain.nodup_parts (h : Chain s (a ++ c :: b)) :
    (a.map Prod.fst).Nodup ∧ (b.map Prod.fst).Nodup ∧
      c.1 ∉ a.map Prod.fst ∧ c.1 ∉ b.map Prod.fst ∧
      ∀ slot ∈ a.map Prod.fst, slot ∉ b.map Prod.fst := by
  have hnd := h.nodup
  rw [List.map_append, List.map_cons, List.nodup_append] at hnd
  obtain ⟨ha, hcb, hdisj⟩ := hnd
  obtain ⟨hc, hb⟩ := List.nodup_cons.1 hcb
  refine ⟨ha, hb, ?_, hc, ?_⟩
  · exact fun hmem => hdisj c.1 hmem c.1 List.mem_cons_self rfl
  · exact fun slot hs hs' => hdisj slot hs slot (List.mem_cons_of_mem _ hs') rfl

/-- A slot that is taken out of the chain leaves the others in order. -/
theorem chain_unlink (h : Chain s (a ++ c :: b)) : Chain (s.unlink c.1) (a ++ b) := by
  obtain ⟨ha, hb, hca, hcb, hab⟩ := h.nodup_parts
  obtain ⟨hA, -, hB⟩ := segment_append.1 h.linked
  have hUnlink : s.unlink c.1 =
      ((s.linkNewer (lastSlot none a) (firstSlot none b)).linkOlder (firstSlot none b)
        (lastSlot none a)).modify c.1 (fun m => { m with older := none, newer := none }) := by
    rw [unlink, h.node?_eq]
  -- neither neighbour is the slot itself, so the last update misses both segments
  have hCut : ∀ t : Slots κ ν, ∀ slot, slot ≠ c.1 →
      (t.modify c.1 fun m => { m with older := none, newer := none }).node? slot = t.node? slot :=
    fun t slot hne => node?_modify_of_ne t _ hne.symm
  rw [hUnlink]
  refine ⟨segment_append.2 ⟨?_, ?_⟩, ?_, ?_, ?_⟩
  · -- the last slot before the gap now leads to the first one after it
    refine (hA.linkNewer ha (firstSlot none b)).congr fun slot hs => ?_
    rw [hCut _ _ fun heq => hca (heq ▸ hs)]
    exact node?_linkOlder_of_ne _ _ fun hf => hab slot hs (mem_of_firstSlot hf)
  · -- and the first one after it back
    have hB' :
        Segment (s.linkNewer (lastSlot none a) (firstSlot none b)).node? (some c.1) none b :=
      hB.congr fun slot hs => node?_linkNewer_of_ne _ _ fun hl =>
        (mem_of_lastSlot hl).elim (fun h0 => by cases h0) fun hmem => hab slot hmem hs
    refine (hB'.linkOlder hb (lastSlot none a)).congr fun slot hs => ?_
    exact hCut _ _ fun heq => hcb (heq ▸ hs)
  · -- another slot is the oldest only if none was before
    rw [firstSlot_append, oldest_modify, oldest_linkOlder]
    cases a with
    | nil => rfl
    | cons d rest =>
      obtain ⟨last, hLast⟩ := exists_lastSlot_some d.1 rest
      have hOldest := h.oldest
      rwa [lastSlot, hLast]
  · -- another slot is the newest only if none comes after
    rw [lastSlot_append, newest_modify]
    have hNewest := h.newest
    rw [lastSlot_append, lastSlot] at hNewest
    cases b with
    | nil => rfl
    | cons d rest =>
      rw [← newest_linkNewer s (lastSlot none a) (some d.1)] at hNewest
      exact hNewest
  · rw [List.map_append]
    exact List.nodup_append.2 ⟨ha, hb, fun i hi j hj heq => hab i hi (heq ▸ hj)⟩

end Cut

/-- A slot outside the chain becomes its newest. -/
theorem chain_pushNewest {s : Slots κ ν} {cells : List (Cell κ ν)} {c : Cell κ ν}
    (h : Chain s cells) (held : s.entryAt? c.1 = some c.2) (fresh : c.1 ∉ cells.map Prod.fst) :
    Chain (s.pushNewest c.1) (cells ++ [c]) := by
  obtain ⟨n, hNode, hEntry⟩ := Option.map_eq_some_iff.1 held
  let linked := s.modify c.1 fun n => { n with older := s.newest, newer := none }
  have hPush : ∀ slot, (s.pushNewest c.1).node? slot =
      (linked.linkNewer (lastSlot none cells) (some c.1)).node? slot :=
    fun slot => by rw [← h.newest]; rfl
  -- the slot that the former newest is linked from is not the new one
  have hNotLast : lastSlot none cells ≠ some c.1 := fun hl =>
    (mem_of_lastSlot hl).elim (fun h0 => by cases h0) fresh
  refine ⟨segment_append.2 ⟨?_, ?_, trivial⟩, ?_, ?_, ?_⟩
  · have hLinked : Segment linked.node? none none cells :=
      h.linked.congr fun slot hs => node?_modify_of_ne s _ fun heq => fresh (heq ▸ hs)
    exact (hLinked.linkNewer h.nodup (some c.1)).congr fun slot _ => hPush slot
  · rw [hPush, node?_linkNewer_of_ne _ _ hNotLast, node?_modify_self, hNode, ← hEntry, h.newest]
    rfl
  · -- in an empty chain the slot becomes the oldest as well
    have hOldest := h.oldest
    rw [firstSlot_append]
    cases cells with
    | nil =>
      have hNone : s.newest = none := h.newest
      rw [pushNewest, hNone]
      rfl
    | cons d rest =>
      obtain ⟨last, hLast⟩ := exists_lastSlot_some d.1 rest
      have hSome : s.newest = some last := h.newest.trans hLast
      rw [pushNewest, hSome]
      exact hOldest
  · rw [lastSlot_append]
    rfl
  · rw [List.map_append]
    refine List.nodup_append.2 ⟨h.nodup, List.nodup_singleton _, ?_⟩
    intro i hi j hj heq
    obtain rfl := List.mem_singleton.1 hj
    exact fresh (heq ▸ hi)

/-- A slot of the chain becomes its newest; the others keep their order. -/
theorem chain_moveNewest {s : Slots κ ν} {a b : List (Cell κ ν)} {c : Cell κ ν}
    (h : Chain s (a ++ c :: b)) : Chain (s.moveNewest c.1) (a ++ b ++ [c]) := by
  obtain ⟨-, -, hca, hcb, -⟩ := h.nodup_parts
  unfold moveNewest
  split
  · -- a slot that is the newest already has nothing after it
    rename_i hLast
    rw [h.newest, lastSlot_append, lastSlot] at hLast
    cases b with
    | nil => rwa [List.append_nil]
    | cons d rest =>
      have hRest : lastSlot (some d.1) rest = some c.1 := hLast
      rcases mem_of_lastSlot hRest with hd | hmem
      · exact absurd (List.mem_cons.2 (Or.inl (Option.some.inj hd).symm)) hcb
      · exact absurd (List.mem_cons_of_mem _ hmem) hcb
  · -- otherwise it is cut out and put at the end
    refine chain_pushNewest (chain_unlink h) ?_ ?_
    · rw [(sameContents_unlink s c.1).entries, entryAt?, h.node?_eq]
      rfl
    · rw [List.map_append, List.mem_append]
      exact fun hmem => hmem.elim hca hcb

end Slots

end ItemComposition.Cache
