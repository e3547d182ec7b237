import ItemComposition.Interpolation.Syntax
import ItemComposition.Interpolation.Value

/-!
# The text interpolation language: scopes

A scope is a stack of frames, innermost first, over the variables that the caller supplies. A
loop has a frame of its own, which is emptied before every round.
-/

namespace ItemComposition.Interpolation

/-- The state of a loop during a round. -/
structure Round where
  /-- The name and value of the key variable. -/
  key : Option (String × String)
  name : String
  value : Json
  index : Nat
  count : Nat

/-- The variables assigned in a scope, and the loop that it belongs to. -/
structure Frame where
  assigned : Dict Json
  round : Option Round

/-- Frames, innermost first, over the variables of the caller. -/
structure Scope where
  frames : List Frame
  globals : Dict Json

namespace Round

/-- What a loop says about its progress. -/
def progress? (r : Round) : String → Option Json
  | "index" => some (.int (r.index + 1 : Nat))
  | "index0" => some (.int r.index)
  | "first" => some (.bool (r.index = 0))
  | "last" => some (.bool (r.index + 1 = r.count))
  | _ => none

/-- Looks a variable with keys up in a loop. -/
def find? (r : Round) (root : String) (keys : List String) : Option Json :=
  -- what tells of the progress hides a variable of the same name
  let progress := match root, keys with
    | "loop", [field] => r.progress? field
    | _, _ => none
  match progress with
  | some v => some v
  | none =>
    if root = r.name then r.value.follow? keys
    else
      match r.key, keys with
      | some (name, key), [] => if root = name then some (.str key) else none
      | _, _ => none

end Round

/-- Looks a variable with keys up in a frame: first among assigned variables. -/
def Frame.find? (f : Frame) (root : String) (keys : List String) : Option Json :=
  let found := (f.assigned.get? root).bind (·.follow? keys)
  match found with
  | some v => some v
  | none => f.round.bind (·.find? root keys)

namespace Scope

/-- Looks a variable with keys up, innermost frame first. -/
def find? (s : Scope) (root : String) (keys : List String) : Option Json :=
  match s.frames.findSome? (·.find? root keys) with
  | some v => some v
  | none => (s.globals.get? root).bind (·.follow? keys)

mutual

/-- The keys that a step stands for. -/
def stepKeys (s : Scope) : Step → Option (List String)
  | .key name => some [name]
  | .via root steps => do
    let keys ← stepsKeys s steps
    let v ← s.find? root keys
    match v with
    | .str key => some [key]
    | .num n => some (Json.dottedKeys n.text)
    | _ => none

/-- The keys that steps stand for. -/
def stepsKeys (s : Scope) : List Step → Option (List String)
  | [] => some []
  | step :: rest => do
    let keys ← stepKeys s step
    let more ← stepsKeys s rest
    return keys ++ more

end

/-- All variables in reach as one object. -/
def dump (s : Scope) : Json :=
  let ofFrame (f : Frame) : Dict Json :=
    match f.round with
    | none => f.assigned
    | some r =>
      let bound := f.assigned.insert r.name r.value
      match r.key with
      | some (name, key) => bound.insert name (.str key)
      | none => bound
  -- inner frames are put over outer ones
  .obj (s.frames.reverse.foldl (fun d f => Dict.union d (ofFrame f)) s.globals)

/-- The name of the variable that shows all variables in reach. -/
def dumpName : String := "__tera_context"

/-- The value of a variable with steps. -/
def lookup (s : Scope) (p : Path) : Option Json :=
  if p.root = dumpName && p.steps.isEmpty then some (.str s.dump.pretty)
  else (s.stepsKeys p.steps).bind (s.find? p.root)

/-- Assigns a variable in the innermost frame. -/
def assign (s : Scope) (name : String) (v : Json) : Scope :=
  match s.frames with
  | f :: rest => { s with frames := { f with assigned := f.assigned.insert name v } :: rest }
  | [] => s

/-- Assigns a variable in the innermost frame that is not a loop. -/
def assignOutside (s : Scope) (name : String) (v : Json) : Scope :=
  { s with frames := go s.frames }
where
  go : List Frame → List Frame
    | [] => []
    | f :: rest =>
      if f.round.isSome && !rest.isEmpty then f :: go rest
      else { f with assigned := f.assigned.insert name v } :: rest

/-- Enters a round of a loop with a fresh frame. -/
def enter (s : Scope) (r : Round) : Scope := { s with frames := ⟨[], some r⟩ :: s.frames }

/-- Leaves the innermost frame. -/
def leave (s : Scope) : Scope := { s with frames := s.frames.tail }

/-- Whether the innermost frame is that of a loop. -/
def inLoop (s : Scope) : Bool :=
  match s.frames with
  | f :: _ => f.round.isSome
  | [] => false

end Scope

end ItemComposition.Interpolation
