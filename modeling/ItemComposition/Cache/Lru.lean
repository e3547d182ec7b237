import ItemComposition.Cache.Entry

/-!
# Bounded stores in linked slots

A bounded store keeps its entries in numbered slots, linked in the order of their last use from
the oldest to the newest, with an index from keys to slots. A slot that is given up is used again
for the next new entry, so that there are never more slots than entries were held at once.

## Main definitions

- `Slots`: the slots, the free ones among them, the index and the two ends of the chain
- `Slots.chain`: the occupied slots from the oldest to the newest
- `LruStore`: the slots with a capacity and a lifetime
-/

namespace ItemComposition.Cache

universe u v

/-- An occupied slot: an entry and its neighbours in the order of last use. -/
structure Node (κ : Type u) (ν : Type v) where
  entry : Entry κ ν
  older : Option Nat
  newer : Option Nat
  deriving Repr, DecidableEq

/-- Linked slots. -/
structure Slots (κ : Type u) (ν : Type v) where
  /-- The slots by number; a free one is `none`. -/
  nodes : List (Option (Node κ ν))
  /-- The free slots, the one that is used next first. -/
  free : List Nat
  /-- The slot of each key. -/
  index : List (κ × Nat)
  oldest : Option Nat
  newest : Option Nat
  deriving Repr, DecidableEq

namespace Slots

variable {κ : Type u} {ν : Type v}

/-- No slots. -/
def empty : Slots κ ν := ⟨[], [], [], none, none⟩

/-- The node in a slot. -/
def node? (s : Slots κ ν) (slot : Nat) : Option (Node κ ν) := s.nodes[slot]?.join

/-- Changes the node in a slot, if there is one. -/
def modify (s : Slots κ ν) (slot : Nat) (f : Node κ ν → Node κ ν) : Slots κ ν :=
  { s with nodes := s.nodes.modify slot (Option.map f) }

/-- Makes `newer` the successor of `slot`, or the oldest when there is no `slot`. -/
def linkNewer (s : Slots κ ν) (slot newer : Option Nat) : Slots κ ν :=
  match slot with
  | some i => s.modify i (fun n => { n with newer := newer })
  | none => { s with oldest := newer }

/-- Makes `older` the predecessor of `slot`, or the newest when there is no `slot`. -/
def linkOlder (s : Slots κ ν) (slot older : Option Nat) : Slots κ ν :=
  match slot with
  | some i => s.modify i (fun n => { n with older := older })
  | none => { s with newest := older }

/-- Takes a slot out of the chain; its neighbours become neighbours of each other. -/
def unlink (s : Slots κ ν) (slot : Nat) : Slots κ ν :=
  match s.node? slot with
  | none => s
  | some n =>
    ((s.linkNewer n.older n.newer).linkOlder n.newer n.older).modify slot
      (fun m => { m with older := none, newer := none })

/-- Puts a slot at the newest end of the chain. -/
def pushNewest (s : Slots κ ν) (slot : Nat) : Slots κ ν :=
  let linked := s.modify slot (fun n => { n with older := s.newest, newer := none })
  { linked.linkNewer s.newest (some slot) with newest := some slot }

/-- Moves a slot to the newest end of the chain. -/
def moveNewest (s : Slots κ ν) (slot : Nat) : Slots κ ν :=
  if s.newest = some slot then s else (s.unlink slot).pushNewest slot

variable [DecidableEq κ]

/-- The slot of a key. -/
def slotOf? (s : Slots κ ν) (key : κ) : Option Nat :=
  (s.index.find? (·.1 = key)).map (·.2)

/-- Gives a slot up: its entry leaves the chain and the index, and the slot is the next to be
used. -/
def remove (s : Slots κ ν) (slot : Nat) : Slots κ ν :=
  let unlinked := s.unlink slot
  match unlinked.node? slot with
  | none => unlinked
  | some n =>
    { unlinked with
      nodes := unlinked.nodes.set slot none
      index := unlinked.index.filter (·.1 ≠ n.entry.key)
      free := slot :: unlinked.free }

/-- Adds the entry of a new key at the newest end, in a free slot if there is one. -/
def insert (s : Slots κ ν) (entry : Entry κ ν) : Slots κ ν :=
  let node : Node κ ν := ⟨entry, none, none⟩
  let index := fun slot : Nat => s.index.filter (·.1 ≠ entry.key) ++ [(entry.key, slot)]
  match s.free with
  -- a slot that was given up is used before a new one is made
  | slot :: free =>
    { s with nodes := s.nodes.set slot (some node), free := free, index := index slot
      : Slots κ ν }.pushNewest slot
  | [] =>
    { s with nodes := s.nodes ++ [some node], index := index s.nodes.length
      : Slots κ ν }.pushNewest s.nodes.length

omit [DecidableEq κ] in
/-- The slots from `slot` on, in the order of last use; at most `bound` of them. -/
def chainFrom (s : Slots κ ν) (bound : Nat) (slot : Option Nat) : List Nat :=
  match bound, slot with
  | 0, _ => []
  | _, none => []
  | bound + 1, some i =>
    match s.node? i with
    | none => []
    | some n => i :: s.chainFrom bound n.newer

omit [DecidableEq κ] in
/-- The occupied slots from the oldest to the newest. -/
def chain (s : Slots κ ν) : List Nat := s.chainFrom s.nodes.length s.oldest

omit [DecidableEq κ] in
/-- The entries from the least to the most recently used. -/
def entries (s : Slots κ ν) : List (Entry κ ν) :=
  s.chain.filterMap (fun i => (s.node? i).map (·.entry))

end Slots

/-- A bounded store: the least recently used entry makes room for a new one, and entries end with
the lifetime. -/
structure LruStore (κ : Type u) (ν : Type v) where
  slots : Slots κ ν
  capacity : Nat
  ttl : Nat
  deriving Repr, DecidableEq

namespace LruStore

variable {κ : Type u} {ν : Type v} [DecidableEq κ]

/-- The store that holds nothing. -/
def empty (capacity ttl : Nat) : LruStore κ ν := ⟨.empty, capacity, ttl⟩

/-- The number of entries. -/
def size (s : LruStore κ ν) : Nat := s.slots.index.length

/-- Stores a value as the most recently used. A new key takes the place of the least recently used
one when the store is full, and with capacity zero nothing is stored. -/
def set (s : LruStore κ ν) (key : κ) (value : ν) (stamp : Int) : LruStore κ ν :=
  if s.capacity = 0 then s
  else
    match s.slots.slotOf? key with
    | some slot =>
      { s with
        slots := (s.slots.moveNewest slot).modify slot
          (fun n => { n with entry := { n.entry with value := value, stamp := stamp } }) }
    | none =>
      let room :=
        -- the oldest entry makes room before the new one goes in
        if s.capacity ≤ s.size then
          match s.slots.oldest with
          | some oldest => s.slots.remove oldest
          | none => s.slots
        else s.slots
      { s with slots := room.insert ⟨key, value, stamp⟩ }

/-- Looks a key up. An entry as old as the lifetime is dropped and not served; one that is served
becomes the most recently used. -/
def get (s : LruStore κ ν) (key : κ) (now : Int) : LruStore κ ν × Option ν :=
  match s.slots.slotOf? key with
  | none => (s, none)
  | some slot =>
    match s.slots.node? slot with
    | none => (s, none)
    | some n =>
      -- for a look-up an entry that is as old as the lifetime is too old, for a sweep it is not yet
      if s.ttl ≤ age n.entry.stamp now then ({ s with slots := s.slots.remove slot }, none)
      else
        let moved := s.slots.moveNewest slot
        ({ s with slots := moved }, (moved.node? slot).map (·.entry.value))

/-- The stamp of a key's entry, whatever its age. Nothing counts as used. -/
def lastUpdated? (s : LruStore κ ν) (key : κ) : Option Int :=
  ((s.slots.slotOf? key).bind s.slots.node?).map (·.entry.stamp)

/-- The slots whose entries are older than the lifetime. -/
def expired (s : LruStore κ ν) (now : Int) : List Nat :=
  (s.slots.index.map (·.2)).filter (fun slot =>
    (s.slots.node? slot).any (fun n => s.ttl < age n.entry.stamp now))

/-- Drops the entries older than the lifetime and tells their number. -/
def cleanUp (s : LruStore κ ν) (now : Int) : LruStore κ ν × Nat :=
  let expired := s.expired now
  ({ s with slots := expired.foldl Slots.remove s.slots }, expired.length)

end LruStore

end ItemComposition.Cache
