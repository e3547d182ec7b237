import ItemComposition.Expr.Token

/-!
# The text of expressions

Infix operators stand between single blanks, prefix operators directly before their operand, and
parentheses only where an operand binds looser than its place asks for. Which trees can be written
at all is decided by `isPrintable`: names have to be identifiers, and of the numbers only whole
ones that are not negative have a literal that is exact.
-/

namespace ItemComposition

/-- The words that are no identifiers. -/
def Token.keywords : List String := ["true", "false", "null", "nil", "in"]

/-- Whether a word is an identifier. -/
def Token.isName (word : String) : Bool :=
  match word.toList with
  | [] => false
  | c :: rest => isWordStart c && rest.all isWordPart && !keywords.contains word

/-- A character inside a string literal. -/
def Token.escapeChar (c : Char) : List Char := if c = '"' || c = '\\' then ['\\', c] else [c]

/-- The string literal of a text. -/
def Token.quotedText (text : String) : List Char :=
  '"' :: (text.toList.flatMap escapeChar ++ ['"'])

/-- Whether a value can be written as a literal. -/
def Json.isLiteral : Json → Bool
  | .null | .bool _ | .str _ => true
  | .num (.int n) => 0 ≤ n && n < Nat.pow 2 53
  | _ => false

/-- The literal of a value. -/
def Json.literalText : Json → List Char
  | .str text => Token.quotedText text
  | value => value.compact.toList

namespace Expr

/-- How tightly the outermost part of an expression binds. A conditional binds loosest, at `0`;
what needs no parentheses anywhere is at `8`. -/
def level : Expr → Nat
  | .conditional _ _ _ => 0
  | .binary op _ _ => op.precedence
  | .unary _ _ => 7
  | _ => 8

/-- The text of an expression in a place that asks for a level. -/
def enclosed (least : Nat) (e : Expr) (text : List Char) : List Char :=
  if e.level < least then '(' :: (text ++ [')']) else text

mutual

/-- The text of an expression without parentheses around all of it. -/
def bareText : Expr → List Char
  | .literal value => value.literalText
  | .ident name => name.toList
  | .member target field => enclosed 8 target (bareText target) ++ '.' :: field.toList
  | .index target key => enclosed 8 target (bareText target) ++ '[' :: (bareText key ++ [']'])
  | .array items => '[' :: ([',', ' '].intercalate (itemTexts items) ++ [']'])
  | .object entries => '\x7b' :: ([',', ' '].intercalate (entryTexts entries) ++ ['\x7d'])
  | .unary op operand => op.symbol.toList ++ enclosed 7 operand (bareText operand)
  | .binary op lhs rhs =>
    -- the left side may be of the same level, the right side must bind more tightly
    enclosed op.precedence lhs (bareText lhs) ++ ' ' :: (op.symbol.toList ++
      ' ' :: enclosed (op.precedence + 1) rhs (bareText rhs))
  | .conditional condition onTrue onFalse =>
    enclosed 1 condition (bareText condition) ++ ' ' :: '?' :: ' ' :: (bareText onTrue ++
      ' ' :: ':' :: ' ' :: bareText onFalse)

/-- The texts of the items of an array. -/
def itemTexts : List Expr → List (List Char)
  | [] => []
  | item :: rest => bareText item :: itemTexts rest

/-- The texts of the entries of an object. -/
def entryTexts : List (String × Expr) → List (List Char)
  | [] => []
  | (key, value) :: rest =>
    (Token.quotedText key ++ ':' :: ' ' :: bareText value) :: entryTexts rest

end

/-- The text of an expression. -/
def print (e : Expr) : String := String.ofList (bareText e)

mutual

/-- Whether an expression can be written. -/
def isPrintable : Expr → Bool
  | .literal value => value.isLiteral
  | .ident name => Token.isName name
  | .member target field => isPrintable target && Token.isName field
  | .index target key => isPrintable target && isPrintable key
  | .array items => areItemsPrintable items
  | .object entries => areEntriesPrintable entries
  | .unary _ operand => isPrintable operand
  | .binary _ lhs rhs => isPrintable lhs && isPrintable rhs
  | .conditional condition onTrue onFalse =>
    isPrintable condition && isPrintable onTrue && isPrintable onFalse

/-- Whether the items of an array can be written. -/
def areItemsPrintable : List Expr → Bool
  | [] => true
  | item :: rest => isPrintable item && areItemsPrintable rest

/-- Whether the entries of an object can be written; any text is a key. -/
def areEntriesPrintable : List (String × Expr) → Bool
  | [] => true
  | (_, value) :: rest => isPrintable value && areEntriesPrintable rest

end

end Expr

end ItemComposition
