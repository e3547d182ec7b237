import ItemComposition.Interpolation.Syntax
import ItemComposition.Text.Reader

/-!
# The text interpolation language: parsing

Alternatives are ordered and never revisited once a later part fails, and keywords need no
boundary after them unless a blank is asked for. Nesting is bounded by the number of opening
brackets and tags in the text, which bounds the recursion.
-/

namespace ItemComposition.Interpolation.Parser

open Reader

/-! ## Characters and literals -/

/-- Blanks inside tags. -/
def isBlank (c : Char) : Bool := c = ' ' || c = '\t' || c = '\r' || c = '\n'

/-- The input without leading blanks. -/
def skip (cs : List Char) : List Char := cs.dropWhile isBlank

/-- A reader after optional blanks. -/
def spaced {α : Type} (r : Reader α) : Reader α := fun cs => r (skip cs)

/-- A text after optional blanks. -/
def sign (text : String) : Reader Unit := spaced (word text)

/-- At least one blank. -/
def gap : Reader Unit := Reader.map (fun _ => ()) (some1 isBlank)

/-- Characters of names. -/
def isNameChar (c : Char) : Bool := c.isAlphanum || c = '_'

/-- A name. -/
def name : Reader String
  | [] => none
  | c :: rest =>
    if c.isAlpha || c = '_' then
      some (String.ofList (c :: rest.takeWhile isNameChar), rest.dropWhile isNameChar)
    else none

/-- Digits without a leading zero, with an optional minus sign. -/
def digits (cs : List Char) : Option (Bool × List Char × List Char) :=
  let (negative, body) := match cs with
    | '-' :: rest => (true, rest)
    | cs => (false, cs)
  match body with
  -- no digit may follow a leading zero
  | '0' :: rest => some (negative, ['0'], rest)
  | c :: rest =>
    if c.isDigit then
      some (negative, c :: rest.takeWhile Char.isDigit, rest.dropWhile Char.isDigit)
    else none
  | [] => none

/-- The number written by decimal digits. -/
def digitsValue (ds : List Char) : Nat :=
  ds.foldl (fun n c => n * 10 + (c.toNat - '0'.toNat)) 0

/-- A whole number in the signed 64-bit range. -/
def intLiteral : Reader Term := fun cs =>
  match digits cs with
  | some (negative, ds, rest) =>
    let n := Binary64.signed negative (digitsValue ds)
    if Word.isSigned 64 n then some (.int n, rest) else none
  | none => none

/-- A number with digits before and after the point. -/
def floatLiteral : Reader Term := fun cs =>
  match digits cs with
  | some (negative, ds, '.' :: rest) =>
    match some1 Char.isDigit rest with
    | some (fraction, rest) =>
      let x := Float.ofScientific (digitsValue (ds ++ fraction)) true fraction.length
      some (.float (if negative then -x else x), rest)
    | none => none
  | _ => none

/-- A text between quotes of one kind; there are no escapes. -/
def textLiteral : Reader String
  | c :: rest =>
    if c = '"' || c = '\'' || c.toNat = 96 then
      match upTo [c] rest with
      | some (text, rest) => some (String.ofList text, rest)
      | none => none
    else none
  | [] => none

/-- A truth value. -/
def boolLiteral : Reader Bool :=
  oneOf [map (fun _ => true) (word "true"), map (fun _ => false) (word "false"),
    map (fun _ => true) (word "True"), map (fun _ => false) (word "False")]

/-! ## Phrases -/

/-- Readers for what stands inside a further pair of brackets. -/
structure Inside where
  phrase : Reader Phrase
  sum : Reader Term
  path : Reader Path

variable (inside : Inside)

/-- The key of a step in square brackets. -/
def bracketKey : Reader Step :=
  oneOf [
    fun cs => match digits cs with
      | some (negative, ds, rest) =>
        let text := String.ofList ds
        some (if negative then .via ("-" ++ text) [] else .key text, rest)
      | none => none,
    map Step.key textLiteral,
    map (fun p => Step.via p.root p.steps) inside.path]

/-- A step: a name or number after a point, or a key in square brackets. -/
def step : Reader Step := oneOf [
  fun cs => match cs with
    | '.' :: rest => map (fun ds => Step.key (String.ofList ds)) (some1 isNameChar) rest
    | _ => none,
  fun cs => match cs with
    | '[' :: rest =>
      match bracketKey inside rest with
      | some (s, ']' :: rest) => some (s, rest)
      | _ => none
    | _ => none]

/-- A variable with steps. -/
def path : Reader Path := fun cs =>
  match name cs with
  | some (root, rest) =>
    let (steps, rest) := many (step inside) rest
    some (⟨root, steps⟩, rest)
  | none => none

/-- Values between commas, at least one, without a comma at the end. -/
def commaList {α : Type} (r : Reader α) : Reader (List α) := fun cs =>
  match r cs with
  | none => none
  | some (first, rest) =>
    let (more, rest) := many (fun cs =>
      match sign "," cs with
      | some (_, rest) => spaced r rest
      | none => none) rest
    some (first :: more, rest)

/-- A list literal; a comma may follow the last item. -/
def listLiteral : Reader Term := fun cs => do
  let (_, rest) ← word "[" cs
  let (items, rest) := match spaced (commaList inside.phrase) rest with
    | some (items, rest) =>
      -- a comma may stand behind the last item
      match sign "," rest with
      | some (_, rest) => (items, rest)
      | none => (items, rest)
    | none => ([], rest)
  let (_, rest) ← sign "]" rest
  return (.list items, rest)

/-- A call's arguments in round brackets; a comma may follow the last one. -/
def arguments (value : Reader Phrase) : Reader (List (String × Phrase)) := fun cs => do
  let (_, rest) ← sign "(" cs
  let argument : Reader (String × Phrase) := fun cs => do
    let (key, rest) ← name cs
    let (_, rest) ← sign "=" rest
    let (v, rest) ← spaced value rest
    return ((key, v), rest)
  let (args, rest) := match spaced (commaList argument) rest with
    | some (args, rest) =>
      -- a comma may stand behind the last argument
      match sign "," rest with
      | some (_, rest) => (args, rest)
      | none => (args, rest)
    | none => ([], rest)
  let (_, rest) ← sign ")" rest
  return (args, rest)

/-- A function call. -/
def call (value : Reader Phrase) : Reader Call := fun cs => do
  let (f, rest) ← name cs
  let (args, rest) ← arguments value rest
  return (.mk f args, rest)

/-- A filter after its bar: a call, or a name alone. -/
def filter (value : Reader Phrase) : Reader Call := fun cs => do
  let (_, rest) ← sign "|" cs
  spaced (orElse (call value) (map (fun f => .mk f []) name)) rest

/-- A term with the filters after it. -/
def withFilters (value : Reader Phrase) (term : Reader Term) : Reader Phrase := fun cs =>
  match term cs with
  | some (t, rest) =>
    let (filters, rest) := many (filter value) rest
    some (.mk t filters false, rest)
  | none => none

/-- A list with filters, whose items are phrases. -/
def listPhraseWith (value : Reader Phrase) : Reader Phrase :=
  withFilters value (listLiteral inside)

/-- An argument: a phrase or a list. -/
def argumentValue : Reader Phrase := fun cs =>
  match inside.phrase cs with
  | some r => some r
  | none => listPhraseWith inside inside.phrase cs

/-- A test of a variable: `x is name(args)`. -/
def test (negated : Bool) : Reader Term := fun cs => do
  let (subject, rest) ← path inside cs
  let (_, rest) ← sign "is" rest
  let (_, rest) ← if negated then sign "not" rest else some ((), rest)
  let (test, rest) ← spaced name rest
  let parenthesised : Reader (List Phrase) := fun cs => do
    let (_, rest) ← sign "(" cs
    let (args, rest) ← spaced (commaList (argumentValue inside)) rest
    let (_, rest) ← sign ")" rest
    return (args, rest)
  -- arguments that cannot be read are none, and what is left must then be read by others
  let (args, rest) := match parenthesised rest with
    | some (args, rest) => (args, rest)
    | none => ([], rest)
  return (.test negated subject test args, rest)

/-- A macro call: `scope::name(args)`. -/
def macroCall : Reader Term := fun cs => do
  let (scope, rest) ← name cs
  let (_, rest) ← sign "::" rest
  let (f, rest) ← spaced name rest
  let (args, rest) ← arguments (argumentValue inside) rest
  return (.macroCall scope f args, rest)

/-- A single operand of arithmetic. -/
def operand : Reader Term := oneOf [
  map Term.bool boolLiteral,
  test inside true,
  test inside false,
  macroCall inside,
  map Term.call (call (argumentValue inside)),
  map Term.path (path inside),
  floatLiteral,
  intLiteral]

/-- An arithmetic operator. -/
def mathOp : Reader MathOp := oneOf [
  map (fun _ => .add) (sign "+"), map (fun _ => .sub) (sign "-"), map (fun _ => .mul) (sign "*"),
  map (fun _ => .div) (sign "/"), map (fun _ => .rem) (sign "%")]

/-- Whether an operator binds like a product. -/
def MathOp.isProduct : MathOp → Bool
  | .add | .sub => false
  | .mul | .div | .rem => true

/-- Groups operands by operators that associate to the left, products before sums. `sum` is the
finished part with its operator, `product` the product in progress. -/
def arrange {α : Type} (join : MathOp → α → α → α) (sum : Option (α × MathOp)) (product : α) :
    List (MathOp × α) → α
  | [] => match sum with
    | some (s, op) => join op s product
    | none => product
  | (op, x) :: rest =>
    -- a product goes into the one at hand, a sum ends it
    if MathOp.isProduct op then arrange join sum (join op product x) rest
    else
      let done := match sum with
        | some (s, op) => join op s product
        | none => product
      arrange join (some (done, op)) x rest

/-- Operands of one kind between arithmetic operators. -/
def infixes {α : Type} (operand : Reader α) : Reader (α × List (MathOp × α)) := fun cs =>
  match operand cs with
  | none => none
  | some (first, rest) =>
    let (more, rest) := many (fun cs =>
      match mathOp cs with
      | some (op, rest) => map (fun x => (op, x)) (spaced operand) rest
      | none => none) rest
    some ((first, more), rest)

/-- Arithmetic over operands and sums in round brackets. -/
def sum : Reader Term :=
  let bracketed : Reader Term := fun cs => do
    let (_, rest) ← word "(" cs
    let (t, rest) ← spaced inside.sum rest
    let (_, rest) ← sign ")" rest
    return (t, rest)
  map (fun p => arrange (fun op a b => .math op a.phrase b.phrase) none p.1 p.2)
    (infixes (orElse bracketed (operand inside)))

/-- A sum with filters. -/
def sumPhrase : Reader Phrase := withFilters (argumentValue inside) (sum inside)

/-- Texts and numbers joined by tildes. -/
def concatenation : Reader Term := fun cs =>
  let part : Reader Term := oneOf [
    map Term.call (call (argumentValue inside)), floatLiteral, intLiteral, map Term.text textLiteral,
    map Term.path (path inside)]
  match part cs with
  | none => none
  | some (first, rest) =>
    let (more, rest) := many (fun cs =>
      match sign "~" cs with
      | some (_, rest) => spaced part rest
      | none => none) rest
    -- one part alone is no concatenation
    if more.isEmpty then none else some (.concat (first :: more), rest)

/-- A text or a concatenation, with filters. -/
def textPhrase : Reader Phrase :=
  withFilters (argumentValue inside) (orElse (concatenation inside) (map Term.text textLiteral))

/-- A list with filters. -/
def listPhrase : Reader Phrase := listPhraseWith inside (argumentValue inside)

/-- Filtered sums between arithmetic operators. -/
def comparand : Reader Phrase :=
  map (fun p => arrange (fun op a b => (Term.math op a b).phrase) none p.1 p.2)
    (infixes (sumPhrase inside))

/-- A comparison operator. -/
def comparisonOp : Reader LogicOp := oneOf [
  map (fun _ => .lessEq) (sign "<="), map (fun _ => .greaterEq) (sign ">="),
  map (fun _ => .greater) (sign ">"), map (fun _ => .less) (sign "<"),
  map (fun _ => .eq) (sign "=="), map (fun _ => .notEq) (sign "!=")]

/-- At most one comparison. -/
def comparison : Reader Phrase := fun cs =>
  let side := orElse (textPhrase inside) (comparand inside)
  match side cs with
  | none => none
  | some (lhs, rest) =>
    match comparisonOp rest with
    | none => some (lhs, rest)
    | some (op, after) =>
      -- without a second side the operator is left, and the first side stands for itself
      match spaced side after with
      | none => some (lhs, rest)
      | some (rhs, after) => some ((Term.logic op lhs rhs).phrase, after)

/-- The word `not` and a blank. -/
def notWord : Reader Unit := fun cs =>
  match word "not" cs with
  | some (_, c :: rest) => if isBlank c then some ((), rest) else none
  | _ => none

/-- A test of membership. -/
def membership : Reader Phrase := fun cs => do
  let (needle, rest) ← orElse (textPhrase inside) (sumPhrase inside) cs
  let (negated, rest) := match spaced notWord rest with
    | some (_, rest) => (true, rest)
    | none => (false, rest)
  let (_, rest) ← sign "in" rest
  let (haystack, rest) ← spaced
    (oneOf [textPhrase inside, listPhrase inside, map (fun p => (Term.path p).phrase) (path inside)])
    rest
  return ((Term.within negated needle haystack).phrase, rest)

/-- The phrase negated or not. -/
def setNegated (negated : Bool) : Phrase → Phrase
  | .mk t filters _ => .mk t filters negated

/-- An operand of `and` and `or`. -/
def logicOperand : Reader Phrase := fun cs =>
  let body := orElse (membership inside) (comparison inside)
  let plain := match notWord cs with
    | some (_, rest) => map (setNegated true) (spaced body) rest
    | none => none
  -- negated first, then plain, then a phrase in parentheses
  match plain with
  | some r => some r
  | none =>
    match body cs with
    | some (p, rest) => some (setNegated false p, rest)
    | none =>
      match word "(" cs with
      | none => none
      | some (_, rest) =>
        match spaced inside.phrase rest with
        | none => none
        | some (p, rest) =>
          match sign ")" rest with
          | none => none
          | some (_, rest) => some (setNegated false p, rest)

/-- One of the words `or` and `and`, and a blank. -/
def logicOp : Reader LogicOp := fun cs =>
  match oneOf [map (fun _ => LogicOp.or) (sign "or"), map (fun _ => LogicOp.and) (sign "and")] cs with
  | some (op, c :: rest) => if isBlank c then some (op, rest) else none
  | _ => none

/-- Groups operands so that `and` binds tighter than `or`, both to the left. -/
def arrangeLogic (alternatives : Option Phrase) (conjunction : Phrase) :
    List (LogicOp × Phrase) → Phrase
  | [] => match alternatives with
    | some a => (Term.logic .or a conjunction).phrase
    | none => conjunction
  -- a conjunction goes into the one at hand, an alternative ends it
  | (.and, p) :: rest =>
    arrangeLogic alternatives (Term.logic .and conjunction p).phrase rest
  | (_, p) :: rest =>
    let done := match alternatives with
      | some a => (Term.logic .or a conjunction).phrase
      | none => conjunction
    arrangeLogic (some done) p rest

/-- A phrase: operands between `and` and `or`. -/
def phrase : Reader Phrase := fun cs =>
  match logicOperand inside cs with
  | none => none
  | some (first, rest) =>
    let (more, rest) := many (fun cs =>
      match logicOp cs with
      | some (op, rest) => map (fun p => (op, p)) (spaced (logicOperand inside)) rest
      | none => none) rest
    some (arrangeLogic none first more, rest)

/-- Readers for phrases that hold at most `depth` brackets inside one another. -/
def nested : Nat → Inside
  | 0 => ⟨fun _ => none, fun _ => none, fun _ => none⟩
  | depth + 1 =>
    let inside := nested depth
    ⟨phrase inside, sum inside, path inside⟩

/-- How many brackets open in the text. -/
def openings (cs : List Char) : Nat := cs.countP fun c => c = '(' || c = '['

/-! ## Tags -/

/-- The start of a tag, and whether it removes blanks. -/
def tagStart : Reader Bool :=
  orElse (map (fun _ => true) (word "\x7b%-")) (map (fun _ => false) (word "\x7b%"))

/-- The end of a tag, and whether it removes blanks. -/
def tagEnd : Reader Bool :=
  orElse (map (fun _ => true) (sign "-%\x7d")) (map (fun _ => false) (sign "%\x7d"))

/-- A tag that consists of a word, and perhaps a name after it. -/
def bareTag (keyword : String) (named : Bool) : Reader Trim := fun cs => do
  let (before, rest) ← tagStart cs
  let (_, rest) ← sign keyword rest
  let rest := if named then
      match spaced name rest with
      | some (_, rest) => rest
      | none => rest
    else rest
  let (after, rest) ← tagEnd rest
  return (⟨before, after⟩, rest)

/-- A tag with a word, a blank and a body. -/
def tag {α : Type} (keyword : String) (body : Reader α) : Reader (Trim × α) := fun cs => do
  let (before, rest) ← tagStart cs
  let (_, rest) ← sign keyword rest
  let (_, rest) ← gap rest
  let (x, rest) ← body (skip rest)
  let (after, rest) ← tagEnd rest
  return ((⟨before, after⟩, x), rest)

/-- An insert that prints a phrase. -/
def printTag : Reader Node := fun cs => do
  let (before, rest) ←
    orElse (map (fun _ => true) (word "\x7b\x7b-")) (map (fun _ => false) (word "\x7b\x7b")) cs
  let (p, rest) ← spaced (orElse (phrase inside) (listPhrase inside)) rest
  let (after, rest) ←
    orElse (map (fun _ => true) (sign "-\x7d\x7d")) (map (fun _ => false) (sign "\x7d\x7d")) rest
  return (.print ⟨before, after⟩ p, rest)

/-- The text up to the end of a comment, and whether the end removes blanks. -/
def commentEnd : List Char → Option (Bool × List Char)
  | '-' :: '#' :: '\x7d' :: rest => some (true, rest)
  | '#' :: '\x7d' :: rest => some (false, rest)
  | _ :: rest => commentEnd rest
  | [] => none

/-- A comment. -/
def commentTag : Reader Node := fun cs => do
  let (before, rest) ←
    orElse (map (fun _ => true) (word "\x7b#-")) (map (fun _ => false) (word "\x7b#")) cs
  let (after, rest) ← commentEnd rest
  return (.comment ⟨before, after⟩, rest)

/-- The body of an assignment. -/
def assignment : Reader (String × Phrase) := fun cs => do
  let (variable', rest) ← name cs
  let (_, rest) ← sign "=" rest
  let (p, rest) ← spaced (orElse (phrase inside) (listPhrase inside)) rest
  return ((variable', p), rest)

/-- What a loop iterates over and the names it binds. -/
def loopHead : Reader (Option String × String × Phrase) := fun cs => do
  let (first, rest) ← name cs
  let (second, rest) ← opt (fun cs => match cs with
    | ',' :: rest => spaced name rest
    | _ => none) rest
  let (_, rest) ← gap rest
  let (_, rest) ← word "in" rest
  let (_, rest) ← gap rest
  let (p, rest) ← orElse (sumPhrase inside) (listPhrase inside) rest
  -- of two names the first is for the key
  return (match second with
    | some item => (some first, item, p)
    | none => (none, first, p), rest)

/-- The name and parameters of a macro. -/
def macroHead : Reader (String × List Parameter) := fun cs => do
  let (f, rest) ← name cs
  let (_, rest) ← sign "(" rest
  let constant : Reader Term := oneOf [
    map Term.bool boolLiteral, map Term.text textLiteral, floatLiteral, intLiteral]
  let parameter : Reader Parameter := fun cs => do
    let (p, rest) ← name cs
    let given : Option (Term × List Char) := do
      let (_, rest) ← sign "=" rest
      spaced constant rest
    match given with
    | some (t, rest) => return ((p, some t.phrase), rest)
    | none => return ((p, none), rest)
  let (parameters, rest) := match spaced (commaList parameter) rest with
    | some (ps, rest) => (ps, rest)
    | none => ([], rest)
  let (_, rest) ← sign ")" rest
  return ((f, parameters), rest)

/-- The file or files of an inclusion, and whether they may be missing. -/
def inclusionBody : Reader Bool := fun cs => do
  let files : Reader Unit := fun cs => do
    let (_, rest) ← word "[" cs
    let (_, rest) ← spaced (commaList textLiteral) rest
    let (_, rest) ← sign "]" rest
    return ((), rest)
  let (_, rest) ← orElse (map (fun _ => ()) textLiteral) files cs
  -- only the choice to do without the files is remembered
  let (missing, rest) ← opt (fun cs => do
    let (_, rest) ← gap cs
    word "ignore missing" rest) rest
  return (missing.isSome, rest)

/-- The rest of an import after its keyword. -/
def importBody : Reader Unit := fun cs => do
  let (_, rest) ← textLiteral cs
  let (_, rest) ← gap rest
  let (_, rest) ← word "as" rest
  let (_, rest) ← gap rest
  let (_, rest) ← name rest
  return ((), rest)

/-- Whether an insert of some kind starts here. -/
def startsInsert (cs : List Char) : Bool :=
  match cs with
  | '\x7b' :: c :: _ => c = '\x7b' || c = '%' || c = '#'
  | _ => false

/-- The text up to the next insert. -/
def spanText : List Char → List Char × List Char
  | [] => ([], [])
  | c :: rest =>
    if startsInsert (c :: rest) then ([], c :: rest)
    else
      let (text, after) := spanText rest
      (c :: text, after)

/-- Text without inserts. -/
def textNode : Reader Node := fun cs =>
  match spanText cs with
  | ([], _) => none
  | (text, rest) => some (.text (String.ofList text), rest)

/-- The text of a raw section up to its end tag. -/
def rawText : List Char → Option (List Char × Trim × List Char)
  | [] => none
  | c :: rest =>
    match bareTag "endraw" false (c :: rest) with
    | some (trim, after) => some ([], trim, after)
    | none =>
      match rawText rest with
      | some (text, trim, after) => some (c :: text, trim, after)
      | none => none

/-- A section that is printed as it stands. -/
def rawSection : Reader Node := fun cs => do
  let (start, rest) ← bareTag "raw" false cs
  let (text, finish, rest) ← rawText rest
  return (.raw start (String.ofList text) finish, rest)

variable (body : List Char → List Node × List Char)

/-- A section whose text is piped through a filter. -/
def filteredSection : Reader Node := fun cs => do
  let ((start, f), rest) ←
    tag "filter" (orElse (call (argumentValue inside)) (map (fun f => .mk f []) name)) cs
  let (nodes, rest) := body rest
  let (finish, rest) ← bareTag "endfilter" false rest
  return (.filtered start f nodes finish, rest)

/-- A loop, perhaps with a body for an empty container. -/
def loopSection : Reader Node := fun cs => do
  let ((start, key, item, container), rest) ← tag "for" (loopHead inside) cs
  let (nodes, rest) := body rest
  let (otherwise, rest) := match bareTag "else" false rest with
    | some (_, rest) =>
      let (nodes, rest) := body rest
      (some nodes, rest)
    | none => (none, rest)
  let (finish, rest) ← bareTag "endfor" false rest
  return (.loop start key item container nodes otherwise finish, rest)

/-- A choice between branches. -/
def choice : Reader Node := fun cs => do
  let ((start, condition), rest) ← tag "if" (phrase inside) cs
  let (nodes, rest) := body rest
  let (more, rest) := many (fun cs => do
    -- branches are tried in the order they are written in
    let ((trim, condition), rest) ← tag "elif" (phrase inside) cs
    let (nodes, rest) := body rest
    return ((trim, condition, nodes), rest)) rest
  let (otherwise, rest) := match bareTag "else" false rest with
    | some (trim, rest) =>
      let (nodes, rest) := body rest
      (some (trim, nodes), rest)
    | none => (none, rest)
  let (finish, rest) ← bareTag "endif" false rest
  return (.choose ((start, condition, nodes) :: more) otherwise finish, rest)

/-- A named block. -/
def blockSection : Reader Node := fun cs => do
  let ((start, block), rest) ← tag "block" name cs
  let (nodes, rest) := body rest
  let (finish, rest) ← bareTag "endblock" true rest
  return (.block start block nodes finish, rest)

/-- The definition of a macro. -/
def macroSection : Reader Node := fun cs => do
  let ((start, f, parameters), rest) ← tag "macro" macroHead cs
  let (nodes, rest) := body rest
  let (finish, rest) ← bareTag "endmacro" true rest
  return (.define start f parameters nodes finish, rest)

/-- A piece of a template. -/
-- the order of the choices decides where several could begin
def node : Reader Node := oneOf [
  map (fun r => .inclusion r.1 r.2) (tag "include" inclusionBody),
  map (fun _ => .unresolved) (tag "import" importBody),
  printTag inside,
  commentTag,
  map (fun r => .assign r.1 false r.2.1 r.2.2) (tag "set" (assignment inside)),
  map (fun r => .assign r.1 true r.2.1 r.2.2) (tag "set_global" (assignment inside)),
  macroSection body,
  blockSection body,
  filteredSection inside body,
  loopSection inside body,
  choice inside body,
  map Node.leaveLoop (bareTag "break" false),
  map Node.nextRound (bareTag "continue" false),
  rawSection,
  textNode]

/-- As many pieces as there are, with at most `depth` sections inside one another. -/
def nodes (inside : Inside) : Nat → List Char → List Node × List Char
  | 0, cs => ([], cs)
  | depth + 1, cs => many (node inside (nodes inside depth)) cs

/-- How many tags start in the text. -/
def tagCount : List Char → Nat
  | '\x7b' :: '%' :: rest => tagCount rest + 1
  | _ :: rest => tagCount rest
  | [] => 0

/-- Parses a whole template. -/
def template? (text : String) : Option (List Node) :=
  let cs := text.toList
  let inside := nested (openings cs + 1)
  let cs := (many commentTag cs).2
  let (parent, cs) := match tag "extends" textLiteral cs with
    | some (_, rest) => ([Node.unresolved], rest)
    -- a parent is read and then nowhere to be found
    | none => ([], cs)
  match nodes inside (tagCount cs + 1) cs with
  | (found, []) => some (parent ++ found)
  | _ => none

end ItemComposition.Interpolation.Parser
