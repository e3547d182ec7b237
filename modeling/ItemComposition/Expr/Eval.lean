import ItemComposition.Expr.Parser
import ItemComposition.Time.Rfc3339

/-!
# Evaluating expressions

Expressions are evaluated over an environment object. Arithmetic and order work on doubles, and a
whole result becomes a whole number again. A text that is a timestamp counts as its seconds since
1970 wherever a number is combined or compared with it. Reading what does not exist is an error,
not null.
-/

namespace ItemComposition

namespace Json

/-- Whether a text occurs in another. -/
def isInfixOf (part : List Char) : List Char → Bool
  | [] => part.isEmpty
  | c :: rest => part.isPrefixOf (c :: rest) || isInfixOf part rest

/-- Equality of `==`: two numbers compare as doubles, all else structurally. -/
def looseEq : Json → Json → Bool
  | .num a, .num b => a.toFloat == b.toFloat
  | a, b => a.same b

/-- A number, or a timestamp as seconds since 1970. -/
def toSeconds? : Json → Option Float
  | .num n => some n.toFloat
  | .str s =>
    match Instant.read? s with
    | some t => some (Binary64.ofInt t.seconds + Binary64.ofInt t.millis / 1000.0)
    | none => none
  | _ => none

end Json

namespace Expr

/-- A truth value, for the named operation. -/
def truth (operation : String) (v : Json) : Except ExprError Bool :=
  match v with
  | .bool b => .ok b
  | v => .error (.typeMismatch (.notBool operation v.kind))

/-- The path that a reader of a message recognises: names, fields and literal keys. -/
def describe : Expr → String
  | .ident name => name
  | .member target field => target.describe ++ "." ++ field
  | .index target (.literal key) => target.describe ++ "[" ++ key.compact ++ "]"
  | .index target _ => target.describe ++ "[..]"
  | _ => "<expression>"

/-- Reads a member of a value; `path` is what a missing member is reported as. -/
def readField (path : Expr) (base : Json) (field : String) : Except ExprError Json :=
  match base with
  | .obj members =>
    match Dict.get? members field with
    | some v => .ok v
    | none => .error (.unknownIdentifier path.describe)
  | v => .error (.typeMismatch (.fieldOf field v.kind))

/-- Reads an element of a list by a number that has to be whole and in range. -/
def readItem (items : List Json) (n : Number) : Except ExprError Json :=
  if Binary64.isWhole n.toFloat then
    let i := Binary64.toInt64 n.toFloat
    match i with
    | .ofNat k =>
      match items[k]? with
      | some v => .ok v
      | none => .error (.indexOutOfBounds i items.length)
    -- a negative index counts from nowhere: it is out of bounds in every array
    | .negSucc _ => .error (.indexOutOfBounds i items.length)
  else .error (.typeMismatch (.fractionalIndex n))

/-- Reads a value by a key: a text key of an object, a number key of an array. -/
def readIndex (path : Expr) (base key : Json) : Except ExprError Json :=
  match base, key with
  | .obj members, .str field => readField path (.obj members) field
  | .arr items, .num n => readItem items n
  | base, key => .error (.typeMismatch (.indexOf base.kind key.kind))

/-- Applies a prefix operator. -/
def applyUnary (op : UnaryOp) (v : Json) : Except ExprError Json :=
  match op with
  | .not =>
    match truth "!" v with
    | .ok b => .ok (.bool (!b))
    | .error e => .error e
  | .negate =>
    match v with
    | .num n => .ok (Json.ofFloat (-n.toFloat))
    | v => .error (.typeMismatch (.negate v.kind))

/-- Applies an arithmetic operator to two doubles. -/
def arithmetic (op : BinaryOp) (a b : Float) : Except ExprError Float :=
  match op with
  | .add => .ok (a + b)
  | .sub => .ok (a - b)
  | .mul => .ok (a * b)
  | .div => if b == 0 then .error .divisionByZero else .ok (a / b)
  | _ => if b == 0 then .error .divisionByZero else .ok (Binary64.remainder a b)

/-- Combines two values by an arithmetic operator. -/
def combine (op : BinaryOp) (a b : Json) : Except ExprError Json :=
  match a.toSeconds?, b.toSeconds? with
  | some x, some y =>
    match arithmetic op x y with
    | .ok z => .ok (Json.ofFloat z)
    | .error e => .error e
  | _, _ => .error (.typeMismatch (.combine op a.kind b.kind))

/-- The outcome of an order operator for an ordering. -/
def holdsFor (op : BinaryOp) (o : Ordering) : Bool :=
  match op with
  | .less => o.isLT
  | .lessEq => o.isLE
  | .greater => o.isGT
  | _ => o.isGE

/-- The order of two doubles; none if one is not a number. -/
def compareFloats (a b : Float) : Option Ordering :=
  if a < b then some .lt else if b < a then some .gt else if a == b then some .eq else none

/-- Compares two values by an order operator: two texts by code points, else as numbers. -/
def order (op : BinaryOp) (a b : Json) : Except ExprError Bool :=
  match a, b with
  | .str s, .str t => .ok (holdsFor op (compare s t))
  | a, b =>
    match a.toSeconds?, b.toSeconds? with
    -- a text and a number meet as seconds, so the text must be a timestamp
    | some x, some y =>
      match compareFloats x y with
      | some o => .ok (holdsFor op o)
      | none => .error (.typeMismatch (.unordered op))
    | _, _ => .error (.typeMismatch (.compare op a.kind b.kind))

/-- Whether a value occurs in another: an element of an array, a key of an object, a part of a
text. -/
def within (needle haystack : Json) : Except ExprError Bool :=
  match haystack, needle with
  | .arr items, needle => .ok (items.any fun v => v.looseEq needle)
  | .obj members, .str key => .ok (Dict.contains members key)
  | .str text, .str part => .ok (Json.isInfixOf part.toList text.toList)
  | haystack, needle => .error (.typeMismatch (.search needle.kind haystack.kind))

/-- Applies an infix operator to two evaluated operands. -/
def applyBinary (op : BinaryOp) (a b : Json) : Except ExprError Json :=
  match op with
  | .eq => .ok (.bool (a.looseEq b))
  | .notEq => .ok (.bool (!a.looseEq b))
  | .less | .lessEq | .greater | .greaterEq =>
    match order op a b with
    | .ok r => .ok (.bool r)
    | .error e => .error e
  | .contains =>
    match within a b with
    | .ok r => .ok (.bool r)
    | .error e => .error e
  | .add =>
    match a, b with
    | .str s, .str t => .ok (.str (s ++ t))
    | a, b => combine .add a b
  | .sub | .mul | .div | .rem => combine op a b
  -- the first side is looked at alone, and may decide
  | .and =>
    match truth "&&" a with
    | .error e => .error e
    | .ok false => .ok (.bool false)
    | .ok true => (truth "&&" b).map .bool
  | .or =>
    match truth "||" a with
    | .error e => .error e
    | .ok true => .ok (.bool true)
    | .ok false => (truth "||" b).map .bool

mutual

/-- The value of an expression in an environment. The right operand of `&&` and `||` and the
branches of a conditional are evaluated only when they count. -/
def eval (env : Json) : Expr → Except ExprError Json
  | .literal v => .ok v
  | .ident name =>
    match env.get? name with
    | some v => .ok v
    | none => .error (.unknownIdentifier name)
  | .member target field =>
    match eval env target with
    | .error e => .error e
    | .ok base => readField (.member target field) base field
  | .index target key =>
    match eval env target with
    | .error e => .error e
    | .ok base =>
      match eval env key with
      | .error e => .error e
      | .ok k => readIndex (.index target key) base k
  | .array items =>
    match evalItems env items with
    | .error e => .error e
    | .ok vs => .ok (.arr vs)
  | .object entries =>
    match evalEntries env entries with
    | .error e => .error e
    | .ok members => .ok (.object members)
  | .unary op operand =>
    match eval env operand with
    | .error e => .error e
    | .ok v => applyUnary op v
  -- the two operators that look at the first side before they evaluate the second
  | .binary .and lhs rhs =>
    match eval env lhs with
    | .error e => .error e
    | .ok a =>
      match truth "&&" a with
      | .error e => .error e
      | .ok false => .ok (.bool false)
      | .ok true =>
        match eval env rhs with
        | .error e => .error e
        | .ok b => (truth "&&" b).map .bool
  | .binary .or lhs rhs =>
    match eval env lhs with
    | .error e => .error e
    | .ok a =>
      match truth "||" a with
      | .error e => .error e
      | .ok true => .ok (.bool true)
      | .ok false =>
        match eval env rhs with
        | .error e => .error e
        | .ok b => (truth "||" b).map .bool
  | .binary op lhs rhs =>
    match eval env lhs with
    | .error e => .error e
    | .ok a =>
      match eval env rhs with
      | .error e => .error e
      | .ok b => applyBinary op a b
  | .conditional condition onTrue onFalse =>
    match eval env condition with
    | .error e => .error e
    | .ok c =>
      match truth "?:" c with
      | .error e => .error e
      | .ok true => eval env onTrue
      | .ok false => eval env onFalse

/-- The values of a list of expressions, up to the first error. -/
def evalItems (env : Json) : List Expr → Except ExprError (List Json)
  | [] => .ok []
  | e :: rest =>
    match eval env e with
    | .error e => .error e
    | .ok v =>
      match evalItems env rest with
      | .error e => .error e
      | .ok vs => .ok (v :: vs)

/-- The values of the entries of an object literal, up to the first error. -/
def evalEntries (env : Json) : List (String × Expr) → Except ExprError (List (String × Json))
  | [] => .ok []
  | (key, e) :: rest =>
    match eval env e with
    | .error e => .error e
    | .ok v =>
      match evalEntries env rest with
      | .error e => .error e
      | .ok members => .ok ((key, v) :: members)

end

/-! ## Static paths -/

/-- Whether an expression is a chain of fields and literal keys on an identifier. -/
def isStaticPath : Expr → Bool
  | .ident _ => true
  | .member target _ => target.isStaticPath
  | .index target (.literal _) => target.isStaticPath
  | _ => false

mutual

/-- All subexpressions, each before its parts. -/
def subterms : Expr → List Expr
  | .member target field => .member target field :: subterms target
  | .index target key => .index target key :: (subterms target ++ subterms key)
  | .array items => .array items :: subtermsOfItems items
  | .object entries => .object entries :: subtermsOfEntries entries
  | .unary op operand => .unary op operand :: subterms operand
  | .binary op lhs rhs => .binary op lhs rhs :: (subterms lhs ++ subterms rhs)
  | .conditional c a b => .conditional c a b :: (subterms c ++ subterms a ++ subterms b)
  | e => [e]

/-- The subexpressions of a list of expressions. -/
def subtermsOfItems : List Expr → List Expr
  | [] => []
  | e :: rest => subterms e ++ subtermsOfItems rest

/-- The subexpressions of the entries of an object literal. -/
def subtermsOfEntries : List (String × Expr) → List Expr
  | [] => []
  | (_, e) :: rest => subterms e ++ subtermsOfEntries rest

end

/-- The missing identifier or member that evaluation of a static path meets, if any. -/
def missing? (env : Json) (e : Expr) : Option String :=
  if e.isStaticPath then
    match e.eval env with
    | .error (.unknownIdentifier path) => some path
    | _ => none
  else none

/-- The first static path, parents first, that does not resolve. -/
def firstMissing? (env : Json) (e : Expr) : Option String := e.subterms.findSome? (missing? env)

/-- Fails if some static path does not resolve, also in a branch that is not taken. -/
def checkIdentifiers (env : Json) (e : Expr) : Except ExprError Unit :=
  match e.firstMissing? env with
  | some path => .error (.unknownIdentifier path)
  | none => .ok ()

/-- The truth value of a condition: all its static paths must resolve first. -/
def evalCondition (env : Json) (e : Expr) : Except ExprError Bool :=
  match e.checkIdentifiers env with
  | .error e => .error e
  | .ok () =>
    match e.eval env with
    | .error e => .error e
    | .ok (.bool b) => .ok b
    | .ok v => .error (.notBoolean v)

/-! ## Paths into providers -/

/-- The identifier at the root of a chain of accesses. -/
def root? : Expr → Option String
  | .ident name => some name
  | .member target _ => target.root?
  | .index target _ => target.root?
  | _ => none

/-- Splits `provider.method…` into the two names and the remaining accesses on a new root. -/
def splitCall? (root : String) : Expr → Option (String × String × Expr)
  -- the innermost access is the call, and it reads from the root; the others read from its answer
  | .member (.ident provider) method => some (provider, method, .ident root)
  | .member target field =>
    match target.splitCall? root with
    | some (provider, method, rest) => some (provider, method, .member rest field)
    | none => none
  | .index target key =>
    match target.splitCall? root with
    | some (provider, method, rest) => some (provider, method, .index rest key)
    | none => none
  | _ => none

end Expr

end ItemComposition
