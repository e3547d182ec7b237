import ItemComposition.Json.Printer

/-!
# Expressions

The syntax tree of the small language behind conditions, paths and filters, and what can go wrong
in reading or evaluating one.
-/

namespace ItemComposition

/-- Prefix operators. -/
inductive UnaryOp where
  | not
  | negate
  deriving DecidableEq, Repr

/-- Infix operators. -/
inductive BinaryOp where
  | or
  | and
  | eq
  | notEq
  | less
  | lessEq
  | greater
  | greaterEq
  | contains
  | add
  | sub
  | mul
  | div
  | rem
  deriving DecidableEq, Repr

/-- The sign of a prefix operator. -/
def UnaryOp.symbol : UnaryOp → String
  | .not => "!"
  | .negate => "-"

/-- The sign of an infix operator. -/
def BinaryOp.symbol : BinaryOp → String
  | .or => "||"
  | .and => "&&"
  | .eq => "=="
  | .notEq => "!="
  | .less => "<"
  | .lessEq => "<="
  | .greater => ">"
  | .greaterEq => ">="
  | .contains => "in"
  | .add => "+"
  | .sub => "-"
  | .mul => "*"
  | .div => "/"
  | .rem => "%"

/-- How tightly an infix operator binds, `1` loosest. Operators of one level associate to the
left. -/
def BinaryOp.precedence : BinaryOp → Nat
  | .or => 1
  | .and => 2
  | .eq | .notEq => 3
  | .less | .lessEq | .greater | .greaterEq | .contains => 4
  | .add | .sub => 5
  | .mul | .div | .rem => 6

/-- An expression. The entries of an object literal keep their order, and a key may occur twice. -/
inductive Expr where
  | literal (value : Json)
  | ident (name : String)
  | member (target : Expr) (field : String)
  | index (target : Expr) (key : Expr)
  | array (items : List Expr)
  | object (entries : List (String × Expr))
  | unary (op : UnaryOp) (operand : Expr)
  | binary (op : BinaryOp) (lhs rhs : Expr)
  | conditional (condition onTrue onFalse : Expr)
  deriving Inhabited

end ItemComposition
