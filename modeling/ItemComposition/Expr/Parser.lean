import ItemComposition.Expr.Error
import ItemComposition.Parsed

/-!
# Parsing expressions

Loosest first: the conditional `? :` (to the right), six levels of infix operators (to the left),
the prefix operators `!` and `-`, and the accesses `.field` and `[key]`. Every reader consumes at
least one token and says so in its type, which is why the recursion ends.

An error names the first token that cannot continue the expression, or the end of the input.
-/

namespace ItemComposition

/-- The infix operator of a token. -/
def BinaryOp.ofToken? : Token → Option BinaryOp
  | .or => some .or
  | .and => some .and
  | .eq => some .eq
  | .notEq => some .notEq
  | .less => some .less
  | .lessEq => some .lessEq
  | .greater => some .greater
  | .greaterEq => some .greaterEq
  | .inWord => some .contains
  | .plus => some .add
  | .minus => some .sub
  | .star => some .mul
  | .slash => some .div
  | .percent => some .rem
  | _ => none

/-- The value of a number literal: a whole number if it is one in the signed 64-bit range. A
double that is no JSON number becomes null. -/
def Json.ofFloat (x : Float) : Json :=
  match Binary64.toInt? x with
  | some n => if Word.least 64 < n && n ≤ Word.greatest 64 then .num (.int n) else .num (.float x)
  | none => if x.isFinite then .num (.float x) else .null

namespace Expr.Parser

/-- A reader's result over `ts`. -/
abbrev Result (ts : List Lexeme) (α : Type) := Except SyntaxError (Parsed ts α)

variable (finish : Nat)

/-- The offset of the first token, or of the end. -/
def position : List Lexeme → Nat
  | [] => finish
  | t :: _ => t.start

/-- Fails at the first token. -/
def fail {α : Type} (ts : List Lexeme) (cause : SyntaxCause) : Except SyntaxError α :=
  .error ⟨position finish ts, cause⟩

/-- The first token, if any. -/
def peek (ts : List Lexeme) : Option Token := ts.head?.map Lexeme.token

/-- Takes one given token. -/
def expect (token : Token) (ts : List Lexeme) : Result ts Unit :=
  match ts with
  | [] => fail finish [] (.expected token none)
  | t :: rest =>
    if t.token = token then .ok ⟨(), rest, by simp⟩
    else fail finish (t :: rest) (.expected token (some t.token))

/-- The key of an object entry: a string or an identifier. -/
def entryKey (ts : List Lexeme) : Result ts String :=
  match ts with
  | [] => fail finish [] (.objectKey none)
  | t :: rest =>
    match t.token with
    | .str s => .ok ⟨s, rest, by simp⟩
    | .ident s => .ok ⟨s, rest, by simp⟩
    | token => fail finish (t :: rest) (.objectKey (some token))

/-- Takes the closing token (`true`) or a comma (`false`). -/
def expectOr (close : Token) (ts : List Lexeme) : Result ts Bool :=
  match ts with
  | [] => fail finish [] (.expected .comma none)
  | t :: rest =>
    if t.token = close then .ok ⟨true, rest, by simp⟩
    else if t.token = .comma then .ok ⟨false, rest, by simp⟩
    else fail finish (t :: rest) (.expected .comma (some t.token))

mutual

/-- An expression: an infix expression, or a conditional over three of them. -/
def expression (ts : List Lexeme) : Result ts Expr :=
  match binary 0 ts with
  | .error e => .error e
  | .ok c =>
    match h : c.rest with
    | [] => .ok c
    | t :: rest =>
      have hc := c.shorter
      have hr : rest.length < c.rest.length := by simp [h]
      -- the branches are whole expressions, so nested conditionals go to the right
      if t.token = .question then
        match expression rest with
        | .error e => .error e
        | .ok a =>
          have ha := a.shorter
          match expect finish .colon a.rest with
          | .error e => .error e
          | .ok colon =>
            have hq := colon.shorter
            match expression colon.rest with
            | .error e => .error e
            | .ok b =>
              .ok ⟨.conditional c.value a.value b.value, b.rest, by have := b.shorter; omega⟩
      else .ok c
termination_by (ts.length, 4)

/-- An infix expression whose operators bind at least as tightly as `least`. -/
def binary (least : Nat) (ts : List Lexeme) : Result ts Expr :=
  match unary ts with
  | .error e => .error e
  | .ok lhs =>
    have := lhs.shorter
    binaryTail least lhs
termination_by (ts.length, 3)

/-- Continues an infix expression after its left operand. -/
def binaryTail {ts : List Lexeme} (least : Nat) (lhs : Parsed ts Expr) : Result ts Expr :=
  match h : lhs.rest with
  | [] => .ok lhs
  | t :: rest =>
    have hr : rest.length < lhs.rest.length := by simp [h]
    match BinaryOp.ofToken? t.token with
    | none => .ok lhs
    | some op =>
      -- an operator that binds less tightly is left for the caller
      if op.precedence < least then .ok lhs
      else
        -- operators of one level go to the left: the right side binds more tightly than this one
        match binary (op.precedence + 1) rest with
        | .error e => .error e
        | .ok rhs =>
          have hs := rhs.shorter
          binaryTail least
            ⟨.binary op lhs.value rhs.value, rhs.rest, by have := lhs.shorter; omega⟩
termination_by (lhs.rest.length, 0)

/-- Prefix operators before an access chain. -/
def unary (ts : List Lexeme) : Result ts Expr :=
  match ts with
  | [] => chain []
  | t :: rest =>
    if t.token = .not then
      match unary rest with
      | .error e => .error e
      | .ok a => .ok ⟨.unary .not a.value, a.rest, by have := a.shorter; simp; omega⟩
    else if t.token = .minus then
      match unary rest with
      | .error e => .error e
      | .ok a => .ok ⟨.unary .negate a.value, a.rest, by have := a.shorter; simp; omega⟩
    else chain (t :: rest)
termination_by (ts.length, 2)

/-- A primary expression with its accesses. -/
def chain (ts : List Lexeme) : Result ts Expr :=
  match primary ts with
  | .error e => .error e
  | .ok target =>
    have := target.shorter
    accesses target
termination_by (ts.length, 1)

/-- Continues an access chain. -/
def accesses {ts : List Lexeme} (target : Parsed ts Expr) : Result ts Expr :=
  match h : target.rest with
  | [] => .ok target
  | t :: rest =>
    have hr : rest.length < target.rest.length := by simp [h]
    have ht := target.shorter
    if t.token = .dot then
      match hf : rest with
      | [] => fail finish [] (.fieldName none)
      | f :: rest' =>
        match f.token with
        | .ident name =>
          have hr' : rest'.length < target.rest.length := by simp at hr; omega
          accesses ⟨.member target.value name, rest', by omega⟩
        | token => fail finish (f :: rest') (.fieldName (some token))
    else if t.token = .bracketOpen then
      match expression rest with
      | .error e => .error e
      | .ok key =>
        have hk := key.shorter
        match expect finish .bracketClose key.rest with
        | .error e => .error e
        | .ok close =>
          have hc := close.shorter
          accesses ⟨.index target.value key.value, close.rest, by omega⟩
    else .ok target
termination_by (target.rest.length, 0)

/-- A literal, an identifier, or an expression in brackets of some kind. -/
def primary (ts : List Lexeme) : Result ts Expr :=
  match ts with
  | [] => fail finish [] .unfinished
  | t :: rest =>
    match t.token with
    | .number x => .ok ⟨.literal (Json.ofFloat x), rest, by simp⟩
    | .str s => .ok ⟨.literal (.str s), rest, by simp⟩
    | .trueWord => .ok ⟨.literal (.bool true), rest, by simp⟩
    | .falseWord => .ok ⟨.literal (.bool false), rest, by simp⟩
    | .nullWord => .ok ⟨.literal .null, rest, by simp⟩
    | .ident name => .ok ⟨.ident name, rest, by simp⟩
    | .parenOpen =>
      match expression rest with
      | .error e => .error e
      | .ok inner =>
        match expect finish .parenClose inner.rest with
        | .error e => .error e
        | .ok close =>
          .ok ⟨inner.value, close.rest, by
            have := inner.shorter; have := close.shorter; simp; omega⟩
    | .bracketOpen =>
      -- nothing between the brackets is an empty array, but no comma may end one that has items
      if peek rest = some .bracketClose then .ok ⟨.array [], rest.tail, by simp only [List.length_tail, List.length_cons]; omega⟩
      else
        match items rest with
        | .error e => .error e
        | .ok p => .ok ⟨.array p.value, p.rest, by have := p.shorter; simp; omega⟩
    | .braceOpen =>
      if peek rest = some .braceClose then .ok ⟨.object [], rest.tail, by simp only [List.length_tail, List.length_cons]; omega⟩
      else
        match entries rest with
        | .error e => .error e
        | .ok p => .ok ⟨.object p.value, p.rest, by have := p.shorter; simp; omega⟩
    | token => fail finish (t :: rest) (.unexpected token)
termination_by (ts.length, 0)

/-- The items of an array literal up to its closing bracket, at least one. -/
def items (ts : List Lexeme) : Result ts (List Expr) :=
  match expression ts with
  | .error e => .error e
  | .ok item =>
    have hi := item.shorter
    match expectOr finish .bracketClose item.rest with
    | .error e => .error e
    | .ok ⟨true, rest, hr⟩ => .ok ⟨[item.value], rest, by omega⟩
    | .ok ⟨false, rest, hr⟩ =>
      match items rest with
      | .error e => .error e
      | .ok more => .ok ⟨item.value :: more.value, more.rest, by have := more.shorter; omega⟩
termination_by (ts.length, 5)

/-- The entries of an object literal up to its closing brace, at least one. -/
def entries (ts : List Lexeme) : Result ts (List (String × Expr)) :=
  match entryKey finish ts with
  | .error e => .error e
  | .ok key =>
    have hk := key.shorter
    match expect finish .colon key.rest with
    | .error e => .error e
    | .ok colon =>
      have hc := colon.shorter
      match expression colon.rest with
      | .error e => .error e
      | .ok item =>
        have hi := item.shorter
        match expectOr finish .braceClose item.rest with
        | .error e => .error e
        | .ok ⟨true, rest, hr⟩ => .ok ⟨[(key.value, item.value)], rest, by omega⟩
        | .ok ⟨false, rest, hr⟩ =>
          match entries rest with
          | .error e => .error e
          | .ok more =>
            .ok ⟨(key.value, item.value) :: more.value, more.rest, by
              have := more.shorter; omega⟩
termination_by (ts.length, 5)

end

end Expr.Parser

namespace Expr

/-- The expression made of all the tokens; `finish` is the offset of the end of the text. -/
def ofTokens (finish : Nat) (ts : List Lexeme) : Except SyntaxError Expr :=
  match ts with
  | [] => .error ⟨0, .empty⟩
  | ts =>
    match Parser.expression finish ts with
    | .error e => .error e
    | .ok p =>
      -- an expression that ends too early leaves words behind
      match p.rest with
      | [] => .ok p.value
      | t :: _ => .error ⟨t.start, .trailing t.token⟩

/-- Parses a text. -/
def parse (source : String) : Except ExprError Expr :=
  match Lexeme.ofText source with
  | .error bad => .error (.syntaxError ⟨bad.position, .badSequence bad.text⟩)
  | .ok ts =>
    match ofTokens source.utf8ByteSize ts with
    | .error e => .error (.syntaxError e)
    | .ok e => .ok e

end Expr

/-- An expression together with the text that it was written as. -/
structure Expression where
  source : String
  root : Expr

namespace Expression

/-- Parses a text and keeps it. -/
def parse (source : String) : Except ExprError Expression :=
  match Expr.parse source with
  | .error e => .error e
  | .ok root => .ok ⟨source, root⟩

end Expression

end ItemComposition
