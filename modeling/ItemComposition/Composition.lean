import ItemComposition.Instruction.Basic
import ItemComposition.Interpolation.Render
import ItemComposition.Provider.Call

/-!
# Composition

An item is composed with a list of instructions: views whose conditions hold select templates by
name, and the fields of the selected templates are put together into one object, in the order of the
instructions.

A field that fails yields null and disturbs no other. A field whose provider does not take the item
yields nothing. How providers are called is left open: `Composition.compose` works in any monad with
a function that makes the calls.
-/

namespace ItemComposition

/-- How a method of a provider is called for an item. -/
abbrev Caller (m : Type → Type) : Type :=
  (provider method : String) → (item : Json) → m (Except ProviderError CallOutcome)

/-- What a field contributes to the object that it belongs to. -/
inductive Contribution where
  /-- A value in place of what is there. -/
  | replace (v : Json)
  /-- Members of an object, added to an object that is there. -/
  | merge (members : Dict Json)

/-- Adds a contribution under a key. -/
def Contribution.addTo (target : Dict Json) (key : String) : Contribution → Dict Json
  | replace v => Dict.insert target key v
  | merge members =>
    match Dict.get? target key with
    | some (.obj existing) => Dict.insert target key (.obj (Dict.union existing members))
    | _ => Dict.insert target key (.obj members)

namespace Composition

/-- The value, or null in place of an error. -/
def orNull {α : Type} : Except α Json → Json
  | .ok v => v
  | .error _ => .null

/-- The value of a path in the answer of a provider. -/
def answerValue (context : Json) (rest : Expr) : Except ProviderError CallOutcome → Option Json
  | .ok (.value response) => some (orNull (rest.eval (scopeOf response context)))
  | .ok .noMatch => none
  | .error _ => some .null

/-- The text of a template. -/
def textValue (s : Subject) (template : String) : Json :=
  match interpolate? template s with
  | some text => .str text
  | none => .null

variable {m : Type → Type} [Monad m]

/-- The value that a path leads to; none if a provider does not take the item. -/
def pathValue (call : Caller m) (s : Subject) : PathTarget → m (Option Json)
  | .here path => pure (some (orNull (path.eval (scopeOf s.item s.context))))
  | .invalid _ => pure (some .null)
  | .provider provider method rest => do
    let answer ← call provider method s.item
    return answerValue s.context rest answer

mutual

/-- What a field contributes; none if it yields nothing. -/
def contribution (call : Caller m) (s : Subject) : Field → m (Option Contribution)
  | .literal v => pure (some (.replace v))
  | .bool b => pure (some (.replace (.bool b)))
  | .interpolated template => pure (some (.replace (textValue s template)))
  | .path _ _ target => do
    let v ← pathValue call s target
    return v.map Contribution.replace
  -- the members are those of a new object: what stands under the key is merged with them afterwards
  | .object fields => do
    let members ← addFields call s [] fields
    return some (.merge members)
  | .array elements => do
    let items ← elementValues call s elements
    return some (.replace (.arr items))
  | .skip _ => pure none

/-- Adds the contributions of fields to an object. -/
def addFields (call : Caller m) (s : Subject) (target : Dict Json) :
    List (String × Field) → m (Dict Json)
  | [] => pure target
  | (key, field) :: rest => do
    let c ← contribution call s field
    match c with
    | some c => addFields call s (c.addTo target key) rest
    | none => addFields call s target rest

/-- The objects of the elements whose conditions hold. -/
def elementValues (call : Caller m) (s : Subject) : List Element → m (List Json)
  | [] => pure []
  | .mk condition fields :: rest =>
    if Condition.opens (scopeOf s.item s.context) condition then do
      let members ← addFields call s [] fields
      let items ← elementValues call s rest
      return .obj members :: items
    else elementValues call s rest

end

/-- The names of the templates that the views with open gates select. -/
def selected (env : Json) (instructions : List Instruction) : List String :=
  instructions.flatMap fun i =>
    match i.body with
    | .view templates => if Condition.opens env i.condition then templates else []
    | .template _ => []

/-- The fields of a template whose name is among those given; none for other instructions. -/
def fieldsOf (names : List String) (i : Instruction) : List (String × Field) :=
  match i.body, i.name with
  | .template fields, some name => if names.contains name then fields else []
  | _, _ => []

/-- Adds the fields of the templates of given names to an object. -/
def addTemplates (call : Caller m) (s : Subject) (names : List String) (target : Dict Json) :
    List Instruction → m (Dict Json)
  | [] => pure target
  | i :: rest => do
    let target ← addFields call s target (fieldsOf names i)
    addTemplates call s names target rest

/-- Composes an item. -/
def compose (call : Caller m) (s : Subject) (instructions : List Instruction) : m (Dict Json) :=
  let names := selected (scopeOf s.item s.context) instructions
  addTemplates call s names [] instructions

end Composition

end ItemComposition
