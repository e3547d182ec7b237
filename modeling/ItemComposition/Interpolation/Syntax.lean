import ItemComposition.Json.Basic

/-!
# The text interpolation language: syntax

A template is text with three kinds of inserts: a phrase to print, a statement, or a comment. A
phrase is a term, piped through filters, and possibly negated.
-/

namespace ItemComposition.Interpolation

/-- Operators on numbers. -/
inductive MathOp where
  | add
  | sub
  | mul
  | div
  | rem
  deriving DecidableEq, Repr

/-- Operators with a truth value. -/
inductive LogicOp where
  | or
  | and
  | eq
  | notEq
  | less
  | lessEq
  | greater
  | greaterEq
  deriving DecidableEq, Repr

/-- A step into a value: a literal key, or the key found under another path. -/
inductive Step where
  | key (name : String)
  | via (root : String) (steps : List Step)
  deriving Inhabited

/-- A variable and the steps from it. -/
structure Path where
  root : String
  steps : List Step
  deriving Inhabited

mutual

/-- An operand. -/
inductive Term where
  | text (s : String)
  | concat (parts : List Term)
  | int (n : Int)
  | float (x : Float)
  | bool (b : Bool)
  | path (p : Path)
  | call (f : Call)
  | macroCall (scope name : String) (args : List (String × Phrase))
  | test (negated : Bool) (subject : Path) (name : String) (args : List Phrase)
  | logic (op : LogicOp) (lhs rhs : Phrase)
  | math (op : MathOp) (lhs rhs : Phrase)
  | within (negated : Bool) (needle haystack : Phrase)
  | list (items : List Phrase)

/-- A term, the filters that it is piped through, and whether it is negated. -/
inductive Phrase where
  | mk (term : Term) (filters : List Call) (negated : Bool)

/-- A function or filter with named arguments. -/
inductive Call where
  | mk (name : String) (args : List (String × Phrase))

end

instance : Inhabited Term := ⟨.int 0⟩
instance : Inhabited Phrase := ⟨.mk default [] false⟩

/-- The term of a phrase. -/
def Phrase.term : Phrase → Term
  | .mk term _ _ => term

/-- The filters of a phrase, first applied first. -/
def Phrase.filters : Phrase → List Call
  | .mk _ filters _ => filters

/-- Whether a phrase is negated. -/
def Phrase.negated : Phrase → Bool
  | .mk _ _ negated => negated

/-- The name of a function or filter. -/
def Call.name : Call → String
  | .mk name _ => name

/-- The named arguments of a function or filter. -/
def Call.args : Call → List (String × Phrase)
  | .mk _ args => args

/-- A term on its own. -/
def Term.phrase (t : Term) : Phrase := .mk t [] false

/-- Whether blanks are removed before and after a tag. -/
structure Trim where
  before : Bool
  after : Bool
  deriving DecidableEq, Inhabited

/-- A parameter of a macro with its default. -/
abbrev Parameter := String × Option Phrase

/-- A piece of a template. -/
inductive Node where
  | text (s : String)
  | comment (trim : Trim)
  | print (trim : Trim) (p : Phrase)
  | assign (trim : Trim) (everywhere : Bool) (name : String) (p : Phrase)
  | inclusion (trim : Trim) (optional : Bool)
  | leaveLoop (trim : Trim)
  | nextRound (trim : Trim)
  | raw (start : Trim) (s : String) (finish : Trim)
  | filtered (start : Trim) (f : Call) (body : List Node) (finish : Trim)
  | loop (start : Trim) (key : Option String) (item : String) (container : Phrase)
      (body : List Node) (otherwise : Option (List Node)) (finish : Trim)
  | choose (branches : List (Trim × Phrase × List Node))
      (otherwise : Option (Trim × List Node)) (finish : Trim)
  | block (start : Trim) (name : String) (body : List Node) (finish : Trim)
  | define (start : Trim) (name : String) (parameters : List Parameter) (body : List Node)
      (finish : Trim)
  | unresolved

end ItemComposition.Interpolation
