import ItemComposition.Condition

/-!
# Instructions

An instruction is a view, which selects templates by name, or a template, which describes the
fields of the composed object.
-/

namespace ItemComposition

/-- What a path field is declared to hold. -/
inductive ScalarKind where
  | string
  | number
  deriving DecidableEq, Repr

/-- Why a field produces nothing. -/
inductive SkipReason where
  | pathNotString
  | valueNotString
  | stringWithoutSource
  | numberWithoutPath
  | valueNotBoolean
  | valueNotList
  deriving DecidableEq, Repr

/-- The wording of a reason. -/
def SkipReason.message : SkipReason → String
  | .pathNotString => "path value is not a string"
  | .valueNotString => "value is not a string"
  | .stringWithoutSource => "string field has neither path nor value"
  | .numberWithoutPath => "number field has no path"
  | .valueNotBoolean => "bool field value is not a boolean"
  | .valueNotList => "array field value is not a list"

mutual

/-- How the value of a field comes about. -/
inductive Field where
  /-- A value as it stands. -/
  | literal (v : Json)
  /-- The value that a path leads to. -/
  | path (kind : ScalarKind) (source : String) (target : PathTarget)
  /-- A text with inserts. -/
  | interpolated (template : String)
  | bool (b : Bool)
  /-- An object of fields, merged into an object that is already there. -/
  | object (fields : List (String × Field))
  /-- A list of objects. -/
  | array (elements : List Element)
  /-- Nothing. -/
  | skip (reason : SkipReason)

/-- An element of a list field: an object that is left out unless its condition holds. -/
inductive Element where
  | mk (condition : Option Condition) (fields : List (String × Field))

end

/-- The condition of an element. -/
def Element.condition : Element → Option Condition
  | .mk condition _ => condition

/-- The fields of an element in key order. -/
def Element.fields : Element → List (String × Field)
  | .mk _ fields => fields

/-- What an instruction contributes. -/
inductive Body where
  /-- The names of the templates that a view selects. -/
  | view (templates : List String)
  /-- The fields of a template in key order. -/
  | template (fields : List (String × Field))

/-- A view or a template. -/
structure Instruction where
  version : String
  name : Option String
  metadata : Dict Json
  condition : Option Condition
  body : Body

/-- Whether an instruction is a view. -/
def Instruction.isView (i : Instruction) : Bool :=
  match i.body with
  | .view _ => true
  | .template _ => false

end ItemComposition
