import ItemComposition.Interpolation.Value
import ItemComposition.Text.Letters

/-!
# Filters on lists

Ordering, grouping and picking the elements of a list by the value at a path inside them.
-/

namespace ItemComposition.Interpolation.Items

/-- What elements are ordered by. -/
inductive Key where
  | bool (b : Bool)
  | number (x : Float)
  | text (s : String)
  | size (n : Nat)

/-- The key of a value; null and objects have none. -/
def Key.of? : Json → Option Key
  | .bool b => some (.bool b)
  | .num n => some (.number n.toFloat)
  | .str s => some (.text s)
  | .arr items => some (.size items.length)
  | _ => none

/-- Whether two keys are of one kind. -/
def Key.sameKind : Key → Key → Bool
  | .bool _, .bool _ => true
  | .number _, .number _ => true
  | .text _, .text _ => true
  | .size _, .size _ => true
  | _, _ => false

/-- The order of keys of one kind. -/
def Key.le : Key → Key → Bool
  | .bool a, .bool b => !a || b
  | .number a, .number b => a ≤ b
  | .text a, .text b => !(b < a)
  | .size a, .size b => a ≤ b
  | _, _ => true

/-- Whether two keys are the same. -/
def Key.same (a b : Key) : Bool := a.sameKind b && a.le b && b.le a

/-- The elements ordered by the value at a path. -/
def sort? (path : String) (items : List Json) : Option (List Json) := do
  let keyed ← items.mapM fun v => do
    let key ← (v.at? path).bind Key.of?
    return (key, v)
  match keyed with
  | [] => some []
  | (first, _) :: _ =>
    -- what cannot be compared with the first cannot be sorted
    if keyed.all fun e => first.sameKind e.1 then
      some ((keyed.mergeSort fun a b => a.1.le b.1).map Prod.snd)
    else none

/-- The first element of each group with the same value at a path. -/
def unique? (path : String) (caseSensitive : Bool) (items : List Json) : Option (List Json) :=
  let keyOf? (v : Json) : Option Key :=
    match v with
    | .str s => some (.text (if caseSensitive then s else Text.lower s))
    | .arr _ => none
    | v => Key.of? v
  match items with
  | [] => some []
  | first :: _ => do
    let kind ← (first.at? path).bind keyOf?
    let step (acc : List Key × List Json) (v : Json) : Option (List Key × List Json) :=
      match v.at? path with
      -- an item without the attribute is dropped
      | none => some acc
      | some found => do
        let key ← keyOf? found
        if !kind.sameKind key then none
        else if acc.1.any key.same then some acc
        else some (key :: acc.1, v :: acc.2)
    let (_, kept) ← items.foldlM step ([], [])
    return kept.reverse

/-- The elements by the text of the value at a path; those without one are dropped. -/
def groupBy (path : String) (items : List Json) : Dict Json :=
  let step (groups : Dict (List Json)) (v : Json) : Dict (List Json) :=
    match v.at? path with
    -- an item that lacks the attribute is in no group
    | none | some .null => groups
    | some found =>
      -- every key is a text; a value that is none is written out as one
      let key := match found with
        | .str s => s
        | found => found.compact
      groups.insert key (v :: (groups.get? key).getD [])
  (items.foldl step []).mapValues fun vs => .arr vs.reverse

/-- The elements whose value at a path is the given one; for null, those that have one. -/
def keep (path : String) (wanted : Json) (items : List Json) : List Json :=
  items.filter fun v =>
    let found := (v.at? path).getD .null
    if wanted.isNull then !found.isNull else found.same wanted

/-- The values at a path, without missing ones and nulls. -/
def values (path : String) (items : List Json) : List Json :=
  items.filterMap fun v => (v.at? path).filter (!·.isNull)

/-- The elements from one position up to another; negative positions count from the end. -/
def slice (start finish : Int) (items : List Json) : List Json :=
  let size : Int := items.length
  let position (i : Int) : Option Nat :=
    if 0 ≤ i then some i.toNat else if 0 ≤ size + i then some (size + i).toNat else none
  match position start with
  | none => []
  | some first =>
    let last := (position finish).getD items.length
    (items.take last).drop first

end ItemComposition.Interpolation.Items
