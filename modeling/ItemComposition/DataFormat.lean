import ItemComposition.Json.Basic

/-!
# Typed parts of dynamic values

A `DataFormat` says how the values of a data format are read as texts, numbers, lists and
records. Records are read through it, so that each record is described once for all formats.
-/

namespace ItemComposition

/-- How values of a type are read as typed parts. Each reader fails on a value of another kind. -/
structure DataFormat (ν : Type) where
  text? : ν → Option String
  bool? : ν → Option Bool
  /-- A whole number from zero up to, but not including, a bound. -/
  nat? : (bound : Nat) → ν → Option Nat
  float? : ν → Option Float
  /-- One of several words. -/
  variant? : ν → Option String
  list? : ν → Option (List ν)
  /-- The entries of a map with texts as keys. -/
  entries? : ν → Option (List (String × ν))
  /-- The fields of a record with the given names; unknown fields are left out. -/
  record? : (names : List String) → ν → Option (List (String × ν))
  /-- The value, unless it stands for none. -/
  optional? : ν → Option (Option ν)
  /-- The value by the rules of the format alone, whatever is expected. -/
  value? : ν → Option Json

namespace DataFormat

variable {ν : Type}

/-- The value of a field. -/
def find? (fields : List (String × ν)) (name : String) : Option ν :=
  (fields.find? fun f => f.1 = name).map Prod.snd

/-- Reads a field, which may be absent. -/
def field {α : Type} (fields : List (String × ν)) (name : String) (read : ν → Option α)
    (absent : α) : Option α :=
  match find? fields name with
  | some v => read v
  | none => some absent

/-- Reads a field that may be absent or stand for none. -/
def optionalField {α : Type} (f : DataFormat ν) (fields : List (String × ν)) (name : String)
    (read : ν → Option α) : Option (Option α) :=
  match find? fields name with
  | none => some none
  | some v =>
    match f.optional? v with
    | none => none
    | some none => some none
    | some (some v) => (read v).map some

/-- Reads a list with elements of one type. -/
def listOf {α : Type} (f : DataFormat ν) (read : ν → Option α) (v : ν) : Option (List α) :=
  (f.list? v).bind (·.mapM read)

/-- Reads a map with texts as keys and values. -/
def texts? (f : DataFormat ν) (v : ν) : Option (Dict String) := do
  let entries ← f.entries? v
  let read ← entries.mapM fun e => (f.text? e.2).map fun s => (e.1, s)
  return Dict.ofList read

/-- Whole numbers of JSON below a bound. -/
def jsonNat? (bound : Nat) : Json → Option Nat
  | .num (.int (.ofNat n)) => if n < bound then some n else none
  | _ => none

/-- Records in JSON: objects, or lists of the fields in order. -/
def jsonRecord? (names : List String) : Json → Option (List (String × Json))
  | .obj members => some (members.filter fun m => names.contains m.1)
  | .arr items => if names.length < items.length then none else some (names.zip items)
  | _ => none

/-- JSON values. -/
def json : DataFormat Json where
  text? := Json.str?
  bool? := Json.bool?
  nat? := jsonNat?
  float? := fun v => v.num?.map Number.toFloat
  variant? := fun
    -- a variant is its name, or a mapping of the name to nothing
    | .str s | .obj [(s, .null)] => some s
    | _ => none
  list? := Json.arr?
  entries? := Json.obj?
  record? := jsonRecord?
  optional? := fun v => some (if v.isNull then none else some v)
  value? := some

end DataFormat

end ItemComposition
