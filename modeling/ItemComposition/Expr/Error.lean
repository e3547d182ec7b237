import ItemComposition.Expr.Token

/-!
# Errors of expressions

One constructor a cause; the wording is in `message` alone.
-/

namespace ItemComposition

/-- Why a text is no expression. -/
inductive SyntaxCause where
  | badSequence (text : String)
  | empty
  | trailing (token : Token)
  | expected (token : Token) (found : Option Token)
  | fieldName (found : Option Token)
  | objectKey (found : Option Token)
  | unfinished
  | unexpected (token : Token)

/-- The wording of a cause. -/
def SyntaxCause.message : SyntaxCause → String
  | .badSequence text => "unexpected character sequence " ++ Text.quoted text
  | .empty => "empty expression"
  | .trailing token => "unexpected trailing token " ++ token.describe
  | .expected token found => "expected " ++ token.describe ++ ", found " ++ Token.describe? found
  | .fieldName found => "expected field name after '.', found " ++ Token.describe? found
  | .objectKey found => "expected object key, found " ++ Token.describe? found
  | .unfinished => "unexpected end of expression"
  | .unexpected token => "unexpected token " ++ token.describe

/-- A syntax error with its byte offset. -/
structure SyntaxError where
  position : Nat
  cause : SyntaxCause

/-- Why an operation does not apply to its operands. -/
inductive Mismatch where
  | fieldOf (field : String) (kind : Json.Kind)
  | indexOf (kind : Json.Kind) (key : Json.Kind)
  | fractionalIndex (n : Number)
  | notBool (operation : String) (kind : Json.Kind)
  | negate (kind : Json.Kind)
  | combine (op : BinaryOp) (lhs rhs : Json.Kind)
  | compare (op : BinaryOp) (lhs rhs : Json.Kind)
  | unordered (op : BinaryOp)
  | search (needle haystack : Json.Kind)

/-- The operation that a mismatch is about. -/
def Mismatch.operation : Mismatch → String
  | .fieldOf .. => "."
  | .indexOf .. | .fractionalIndex _ => "[]"
  | .notBool operation _ => operation
  | .negate _ => "-"
  | .combine op .. | .compare op .. | .unordered op => op.symbol
  | .search .. => "in"

/-- The wording of a mismatch. -/
def Mismatch.message : Mismatch → String
  | .fieldOf field kind => "cannot read field " ++ Text.quoted field ++ " of " ++ kind.name
  | .indexOf kind key => "cannot index " ++ kind.name ++ " with " ++ key.name
  | .fractionalIndex n => "non-integer index " ++ n.text
  | .notBool _ kind => "expected bool, found " ++ kind.name
  | .negate kind => "cannot negate " ++ kind.name
  | .combine _ lhs rhs => "cannot combine " ++ lhs.name ++ " and " ++ rhs.name
  | .compare _ lhs rhs => "cannot compare " ++ lhs.name ++ " and " ++ rhs.name
  | .unordered _ => "comparison with NaN"
  | .search needle haystack => "cannot search " ++ needle.name ++ " in " ++ haystack.name

/-- What can go wrong with an expression. -/
inductive ExprError where
  | syntaxError (e : SyntaxError)
  | unknownIdentifier (path : String)
  | typeMismatch (cause : Mismatch)
  | indexOutOfBounds (index : Int) (length : Nat)
  | divisionByZero
  | notBoolean (value : Json)

/-- The wording of an error. -/
def ExprError.message : ExprError → String
  | .syntaxError e =>
    "syntax error at " ++ toString e.position ++ ": " ++ e.cause.message
  | .unknownIdentifier path => "unknown identifier: " ++ path
  | .typeMismatch cause => "type mismatch in " ++ cause.operation ++ ": " ++ cause.message
  | .indexOutOfBounds index length =>
    "index " ++ Decimal.intText index ++ " out of bounds for length " ++ toString length
  | .divisionByZero => "division by zero"
  | .notBoolean value => "expression did not evaluate to a boolean: " ++ value.compact

end ItemComposition
