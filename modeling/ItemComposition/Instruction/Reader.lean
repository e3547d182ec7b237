import ItemComposition.Instruction.Basic
import ItemComposition.Provider.Error

/-!
# Instructions from documents

`Instruction.ofDocument` reads a decoded document. Only its outer form can be refused: fields are
never refused, and one that cannot be read becomes a literal or is skipped with a reason.
-/

namespace ItemComposition

/-- Why a document is no instruction. -/
inductive DocumentError where
  /-- The kind is neither of the two. -/
  | unsupportedKind (kind : String)
  /-- An outer part has the wrong form. -/
  | malformed

/-- The wording of an error. -/
def DocumentError.message : DocumentError → String
  | .unsupportedKind kind => "unsupported instruction kind " ++ Text.quoted kind
  | .malformed => "invalid template document: " ++ detail

theorem Dict.sizeOf_lt_of_get? {α : Type} [SizeOf α] {d : Dict α} {key : String} {v : α}
    (h : Dict.get? d key = some v) : sizeOf v < sizeOf d := by
  induction d with
  | nil => simp at h
  | cons e rest ih =>
    rw [Dict.get?_cons] at h
    split at h
    · obtain rfl := Option.some.inj h
      obtain ⟨k, w⟩ := e
      simp
      omega
    · have := ih h
      simp
      omega

namespace Field

/-- The key of a condition. -/
def conditionKey : String := "if"

/-- Whether a key is that of a condition, blanks around it apart. -/
def isConditionKey (key : String) : Bool := Text.trim key = conditionKey

/-- The text of a value; nothing for other values. -/
def textOf (v : Json) : String := v.str?.getD ""

/-- A path field. -/
def ofPath (kind : ScalarKind) (source : String) : Field := .path kind source (.parse source)

/-- A field declared as a text. -/
def ofStringSpec (spec : Dict Json) : Field :=
  match spec.get? "path", spec.get? "value" with
  | some (.str source), _ => ofPath .string source
  | some _, _ => .skip .pathNotString
  | none, some (.str template) => .interpolated template
  | none, some _ => .skip .valueNotString
  | none, none => .skip .stringWithoutSource

/-- A field declared as a number. -/
def ofNumberSpec (spec : Dict Json) : Field :=
  match spec.get? "path" with
  | some (.str source) => ofPath .number source
  | some _ => .skip .pathNotString
  | none => .skip .numberWithoutPath

/-- A field declared as a truth value. -/
def ofBoolSpec (spec : Dict Json) : Field :=
  match spec.get? "value" with
  | some (.bool b) => .bool b
  | _ => .skip .valueNotBoolean

/-- The condition of an element: a text that is not empty. -/
def elementCondition (element : Dict Json) : Option Condition :=
  match element.get? conditionKey with
  | some (.str source) => if source = "" then none else some (.parse source)
  | _ => none

mutual

/-- Reads the value of a key: an object is a specification, all else stands for itself. -/
def ofValue (v : Json) : Field :=
  match v with
  | .obj spec => ofSpec spec
  | v => .literal v
termination_by (sizeOf v, 0)

/-- Reads a specification by its declared type. An object without a type, or declared as one,
holds fields under `value`; one of an unknown type stands for itself. -/
def ofSpec (spec : Dict Json) : Field :=
  match spec.get? "type" with
  | none => ofObjectSpec spec
  | some declared =>
    match textOf declared with
    | "string" => ofStringSpec spec
    | "number" => ofNumberSpec spec
    | "bool" => ofBoolSpec spec
    | "array" =>
      match h : Dict.get? spec "value" with
      | some (.arr elements) =>
        have : sizeOf elements < sizeOf spec := by
          have := Dict.sizeOf_lt_of_get? h
          simp only [Json.arr.sizeOf_spec] at this
          omega
        .array (ofElements elements)
      | _ => .skip .valueNotList
    | "object" => ofObjectSpec spec
    -- of an unknown type the specification itself is the value
    | _ => .literal (.obj spec)
termination_by (sizeOf spec, 1)

/-- Reads a specification of an object. -/
def ofObjectSpec (spec : Dict Json) : Field :=
  match h : Dict.get? spec "value" with
  | some (.obj fields) =>
    have : sizeOf fields < sizeOf spec := by
      have := Dict.sizeOf_lt_of_get? h
      simp only [Json.obj.sizeOf_spec] at this
      omega
    .object (ofMembers fields)
  | _ => .literal (.obj spec)
termination_by (sizeOf spec, 0)

/-- Reads every key. -/
def ofMembers (members : List (String × Json)) : List (String × Field) :=
  match members with
  | [] => []
  | (key, v) :: rest => (key, ofValue v) :: ofMembers rest
termination_by (sizeOf members, 0)

/-- Reads the objects among the elements of a list. -/
def ofElements (elements : List Json) : List Element :=
  match elements with
  | [] => []
  | .obj element :: rest =>
    .mk (elementCondition element) ((ofMembers element).filter (!isConditionKey ·.1))
      :: ofElements rest
  | _ :: rest => ofElements rest
termination_by (sizeOf elements, 0)

end

end Field

namespace Instruction

/-- The two kinds of instruction. -/
inductive Kind where
  | view
  | template
  deriving DecidableEq, Repr

/-- The name of a kind. -/
def Kind.name : Kind → String
  | .view => "View"
  | .template => "Template"

/-- Reads the name of a kind with blanks around it. -/
def Kind.read (text : String) : Except DocumentError Kind :=
  let name := Text.trim text
  if name = Kind.view.name then .ok .view
  else if name = Kind.template.name then .ok .template
  else .error (.unsupportedKind name)

/-- The outer parts of a document. -/
structure Envelope where
  kind : String
  version : String
  metadata : Dict Json
  spec : Dict Json

/-- A text that may be absent. -/
def optionalText : Option Json → Except DocumentError String
  | none => .ok ""
  | some (.str s) => .ok s
  | some _ => .error .malformed

/-- An object that may be absent or null. -/
def optionalObject : Option Json → Except DocumentError (Dict Json)
  | none | some .null => .ok []
  | some (.obj members) => .ok members
  | some _ => .error .malformed

/-- Reads the outer parts of a document: an object, or a list of the parts in order. -/
def Envelope.read (document : Json) : Except DocumentError Envelope :=
  let parts (kind version metadata spec : Option Json) : Except DocumentError Envelope := do
    let kind ← optionalText kind
    let version ← optionalText version
    let metadata ← optionalObject metadata
    let spec ← optionalObject spec
    return { kind, version, metadata, spec }
  match document with
  | .obj members =>
    let get (key : String) : Option Json := Dict.get? members key
    parts (get "kind") (get "version") (get "metadata") (get "spec")
  -- by place: there are four parts, and those missing at the end are left out
  | .arr items =>
    if 4 < items.length then .error .malformed
    else parts items[0]? items[1]? items[2]? items[3]?
  | _ => .error .malformed

/-- The condition of an instruction: a text that is not blank. -/
def conditionOf (spec : Dict Json) : Option Condition :=
  match spec.get? Field.conditionKey with
  | some (.str source) => if Text.trim source = "" then none else some (.parse source)
  | _ => none

/-- The texts in the list of names of a view. -/
def selectedNames (spec : Dict Json) : List String :=
  match (spec.get? "template").bind (·.get? "templates") with
  | some (.arr names) => names.filterMap Json.str?
  | _ => []

/-- Reads a decoded document. -/
def ofDocument (document : Json) : Except DocumentError Instruction := do
  let e ← Envelope.read document
  let kind ← Kind.read e.kind
  return {
    version := e.version
    name := (e.metadata.get? "name").bind Json.str?
    metadata := e.metadata
    condition := conditionOf e.spec
    body := match kind with
      | .view => .view (selectedNames e.spec)
      | .template =>
        .template ((Field.ofMembers e.spec).filter (!Field.isConditionKey ·.1)) }

end Instruction

end ItemComposition
