import ItemComposition.Expr.Eval
import ItemComposition.Text.Blank

/-!
# Conditions and paths

Both are texts that are parsed once, when the document that holds them is read. A text that does
not parse is kept with its error, which is reported on evaluation.
-/

namespace ItemComposition

/-- The text of a condition and what it parses to. -/
structure Condition where
  source : String
  expression : Except ExprError Expression

namespace Condition

/-- Reads a condition. -/
def parse (source : String) : Condition := ⟨source, Expression.parse source⟩

/-- The truth value of a condition over an environment. -/
def evaluate (c : Condition) (env : Json) : Except ExprError Bool :=
  match c.expression with
  | .ok e => e.root.evalCondition env
  | .error e => .error e

/-- Whether the gate that a condition guards is open. What fails does not open it. -/
def opens (env : Json) : Option Condition → Bool
  | none => true
  | some c =>
    match c.evaluate env with
    | .ok b => b
    | .error _ => false

end Condition

/-- Where a path reads its value from. -/
inductive PathTarget where
  /-- The item and the context. -/
  | here (path : Expr)
  /-- The answer of a provider's method, in which the rest of the path is rooted. -/
  | provider (provider method : String) (rest : Expr)
  /-- Nowhere, for a path that does not parse. -/
  | invalid (cause : ExprError)

namespace PathTarget

/-- The name under which a path finds the item, or the answer of a provider. -/
def itemName : String := "item"

/-- The name under which a path finds the context. -/
def contextName : String := "context"

/-- Classifies a path by its first identifier: `item` and `context` are at hand, and every other
name with a member after it is a provider and its method. -/
def ofExpr (e : Expr) : PathTarget :=
  match e.root? with
  | none => .here e
  | some root =>
    if root = itemName || root = contextName then .here e
    else
      match e.splitCall? itemName with
      | some (name, method, rest) => .provider name method rest
      | none => .here e

/-- Reads a path. -/
def parse (source : String) : PathTarget :=
  match Expr.parse source with
  | .ok e => ofExpr e
  | .error e => .invalid e

end PathTarget

/-- The environment of expressions: an item, or the answer of a provider in its place, and the
context. -/
def scopeOf (item context : Json) : Json :=
  .obj [(PathTarget.contextName, context), (PathTarget.itemName, item)]

end ItemComposition
