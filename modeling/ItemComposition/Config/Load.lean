import ItemComposition.Config.Layer
import ItemComposition.Config.Settings
import ItemComposition.Toml.Document

/-!
# Loading settings

Settings are loaded in three layers: the standard values, a document, and environment variables.
A variable names a setting by its path in capitals, with two underscores before each key. What has
been loaded must meet the rules of settings.

## Main definitions

- `Setting.ofVariables`: the layer of the environment
- `Settings.load`: all layers together
-/

namespace ItemComposition

namespace Setting

/-- What the names of variables start with, in small letters. -/
def variableStart : String := "composer__"

/-- The setting whose variable holds several values with commas between them. -/
def listPath : String := "retry.retryable_codes"

/-- A dot in the place of every two underscores. -/
def dotted : List Char → List Char
  | '_' :: '_' :: rest => '.' :: dotted rest
  | c :: rest => c :: dotted rest
  | [] => []

/-- The path that the name of a variable stands for, if it names a setting. -/
def pathOf? (name : String) : Option String :=
  let lower := (Text.lower name).toList
  if variableStart.toList.isPrefixOf lower then
    some (String.ofList (dotted (lower.drop variableStart.length)))
  else none

/-- What the value of a variable stands for: a truth value, a number, or a text. -/
def ofVariable (path value : String) : Setting :=
  let word := Text.lower value
  if word = "true" then bool true
  else if word = "false" then bool false
  else
    match (Decimal.readInt? 10 value.toList).filter (Word.isSigned 64) with
    | some n => int n
    | none =>
      match Decimal.readFloat? value.toList with
      | some x => float x
      | none =>
        -- only one setting is a list, and its texts are separated by commas
        if path = listPath then list ((value.splitOn ",").map text) else text value

/-- The layer of the environment. -/
def ofVariables (environment : Dict String) : List (String × Setting) :=
  environment.filterMap fun e => (pathOf? e.1).map fun path => (path, ofVariable path e.2)

end Setting

namespace Settings

/-- Loads the settings from the text of a document, if there is one, and the environment. -/
def load (document : Option String) (environment : Dict String) : Except ConfigError Settings :=
  let layer? : Option (List (String × Setting)) :=
    match document with
    | none => some []
    | some text => (Toml.read? text).map Setting.ofTomlMembers
  let settings? := layer?.bind fun layer =>
    -- what the variables say is put over the document
    let merged := Setting.putAll (Setting.ofVariables environment)
      (Setting.putAll layer (.table []))
    Settings.read? Setting.format merged
  match settings? with
  | none => .error .load
  | some settings =>
    match settings.validate with
    | .ok () => .ok settings
    | .error e => .error e

end Settings

end ItemComposition
