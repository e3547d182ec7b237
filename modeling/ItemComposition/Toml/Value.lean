/-!
# Values and tables of a TOML document

A document is a table. Its lines build it up: a line with a key puts a value into the table that
is current, and a header makes another table current. What has been built remembers how each
table came to be, because that decides what a later line may add to it: a table is defined by one
header only, and a table made by dotted keys is closed to headers of its own name.

## Main definitions

- `Value`: what a document holds
- `Item`, `Members.assign`, `Members.openTable`, `Members.appendTable`: a document being built
- `Members.values`: the document that was built
-/

namespace ItemComposition.Toml

/-- A value. Dates and times are kept as text. -/
inductive Value where
  | text (s : String)
  | int (n : Int)
  | float (x : Float)
  | bool (b : Bool)
  | moment (s : String)
  | list (items : List Value)
  | table (members : List (String × Value))

/-- How a table came to be. -/
inductive Origin where
  /-- By a header, or as the document itself. -/
  | header
  /-- On the way to a table that has a header. -/
  | implied
  /-- On the way of a dotted key. -/
  | dotted
  deriving DecidableEq, Repr

/-- What a key stands for in a document being built. -/
inductive Item where
  | value (v : Value)
  | table (origin : Origin) (members : List (String × Item))
  /-- The tables of a list that is built by headers. -/
  | tables (items : List (List (String × Item)))

/-- The keys of a table being built. -/
abbrev Members : Type := List (String × Item)

namespace Members

/-- Changes what a key stands for, if the change allows it. -/
def alter (members : Members) (key : String) (change : Option Item → Option Item) :
    Option Members :=
  match members with
  | [] => (change none).map fun item => [(key, item)]
  | (k, item) :: rest =>
    if k = key then (change (some item)).map fun item => (k, item) :: rest
    else (alter rest key change).map ((k, item) :: ·)

/-- Changes the last of a list. -/
def alterLast (change : Members → Option Members) : List Members → Option (List Members)
  | [] => none
  | [last] => (change last).map ([·])
  | first :: rest => (alterLast change rest).map (first :: ·)

/-- Changes the table that a path leads to; tables that are missing on the way are made. A dotted
key does not lead into a table that has a header. -/
def within (dotted : Bool) (path : List String) (change : Origin → Members → Option Members)
    (origin : Origin) (members : Members) : Option Members :=
  match path with
  | [] => change origin members
  | key :: rest =>
    alter members key fun
      | none =>
        let origin : Origin := if dotted then .dotted else .implied
        (within dotted rest change origin []).map (.table origin)
      -- a value has no members
      | some (.value _) => none
      | some (.tables items) =>
        -- the path leads into the last table of a list
        (alterLast (within dotted rest change .header) items).map .tables
      | some (.table origin members) =>
        if dotted && origin = .header then none
        else (within dotted rest change origin members).map (.table origin)

/-- Puts a value under a dotted key: `path` leads to the table, and the key must be new there. -/
def assign (path : List String) (key : String) (v : Value) (origin : Origin) (members : Members) :
    Option Members :=
  let put (origin : Origin) (members : Members) : Option Members :=
    if (origin = .dotted) = path.isEmpty then none
    else alter members key fun
      | none => some (.value v)
      | some _ => none
  within true path put origin members

/-- Defines the table of a header. It may have been implied, but not defined before. -/
def openTable (path : List String) (key : String) (members : Members) : Option Members :=
  let define (_ : Origin) (members : Members) : Option Members :=
    alter members key fun
      | none => some (.table .header [])
      | some (.table .implied members) => some (.table .header members)
      | some _ => none
  within false path define .header members

/-- Adds a table to the list of a header. -/
def appendTable (path : List String) (key : String) (members : Members) : Option Members :=
  let append (_ : Origin) (members : Members) : Option Members :=
    alter members key fun
      | none => some (.tables [[]])
      | some (.tables items) => some (.tables (items ++ [[]]))
      | some _ => none
  within false path append .header members

end Members

mutual

/-- The value of what was built. -/
def Item.toValue : Item → Value
  | .value v => v
  | .table _ members => .table (Members.values members)
  | .tables items => .list (Members.valuesOfAll items)

/-- The values under the keys of a table that was built. -/
def Members.values : List (String × Item) → List (String × Value)
  | [] => []
  | (key, item) :: rest => (key, item.toValue) :: Members.values rest

/-- The values of tables that were built. -/
def Members.valuesOfAll : List (List (String × Item)) → List Value
  | [] => []
  | members :: rest => .table (Members.values members) :: Members.valuesOfAll rest

end

end ItemComposition.Toml
