import ItemComposition.Expr.Basic

/-!
# Tokens of expressions

`Lexeme.ofText` splits a text into tokens with their byte offsets. At each position the longest
token wins; blanks between tokens are skipped; the first position where no token starts is an
error that shows the text up to where no token could be completed.
-/

namespace ItemComposition

/-- A token. -/
inductive Token where
  | trueWord
  | falseWord
  | nullWord
  | inWord
  | and
  | or
  | not
  | eq
  | notEq
  | lessEq
  | greaterEq
  | less
  | greater
  | plus
  | minus
  | star
  | slash
  | percent
  | parenOpen
  | parenClose
  | bracketOpen
  | bracketClose
  | braceOpen
  | braceClose
  | comma
  | colon
  | question
  | dot
  | ident (name : String)
  | str (text : String)
  | number (value : Float)
  deriving DecidableEq

namespace Token

/-- The name of a token in messages. -/
def describe : Token → String
  | .trueWord => "True"
  | .falseWord => "False"
  | .nullWord => "Null"
  | .inWord => "In"
  | .and => "And"
  | .or => "Or"
  | .not => "Not"
  | .eq => "Eq"
  | .notEq => "NotEq"
  | .lessEq => "LessOrEqual"
  | .greaterEq => "GreaterOrEqual"
  | .less => "Less"
  | .greater => "Greater"
  | .plus => "Plus"
  | .minus => "Minus"
  | .star => "Star"
  | .slash => "Slash"
  | .percent => "Percent"
  | .parenOpen => "ParenOpen"
  | .parenClose => "ParenClose"
  | .bracketOpen => "BracketOpen"
  | .bracketClose => "BracketClose"
  | .braceOpen => "BraceOpen"
  | .braceClose => "BraceClose"
  | .comma => "Comma"
  | .colon => "Colon"
  | .question => "Question"
  | .dot => "Dot"
  | .ident name => "Ident(" ++ Text.quoted name ++ ")"
  | .str text => "String(" ++ Text.quoted text ++ ")"
  | .number value => "Number(" ++ Decimal.Style.diagnostic.float value ++ ")"

/-- The name of a token that may be missing. -/
def describe? : Option Token → String
  | none => "None"
  | some t => "Some(" ++ t.describe ++ ")"

/-! ## Classes of characters -/

/-- Characters between tokens. -/
def isSpace (c : Char) : Bool := c = ' ' || c = '\t' || c = '\n' || c = '\r'

/-- First characters of an identifier. -/
def isWordStart (c : Char) : Bool := c.isAlpha || c = '_'

/-- Further characters of an identifier. -/
def isWordPart (c : Char) : Bool := c.isAlphanum || c = '_'

/-- The token of a word: a keyword or an identifier. -/
def ofWord (word : String) : Token :=
  if word = "true" then .trueWord
  else if word = "false" then .falseWord
  else if word = "null" || word = "nil" then .nullWord
  else if word = "in" then .inWord
  else .ident word

/-- The value of a decimal number written with digits before and after a point. -/
def numberValue (whole fraction : List Char) : Float :=
  let digits := (whole ++ fraction).foldl (fun n c => n * 10 + (c.toNat - '0'.toNat)) 0
  Float.ofScientific digits true fraction.length

/-- What an escaped character stands for in a string literal. -/
def unescape : Char → Char
  | 'n' => '\n'
  | 't' => '\t'
  | 'r' => '\r'
  | c => c

/-- A string literal after its opening quote. Success gives the text and the number of characters
up to and including the closing quote; failure gives the number of characters up to where the
literal can no longer be completed. A line break cannot be escaped. -/
def quotedBody (quote : Char) (seen : Nat) (text : List Char) :
    List Char → Except Nat (List Char × Nat)
  | [] => .error seen
  | '\\' :: rest =>
    match rest with
    | [] => .error seen
    | c :: rest =>
      -- an escaped line break does not go on with the text
      if c = '\n' then .error seen else quotedBody quote (seen + 2) (unescape c :: text) rest
  | c :: rest =>
    if c = quote then .ok (text.reverse, seen + 1)
    else quotedBody quote (seen + 1) (c :: text) rest

/-- The longest token that starts with `c`, given the characters after it, and how many of these
belong to it; or how many belong to the text that is no token. -/
def next (c : Char) (rest : List Char) : Except Nat (Token × Nat) :=
  if isWordStart c then
    let more := rest.takeWhile isWordPart
    .ok (ofWord (String.ofList (c :: more)), more.length)
  else if c.isDigit then
    let whole := rest.takeWhile Char.isDigit
    let fraction := match rest.drop whole.length with
      | '.' :: after => after.takeWhile Char.isDigit
      | _ => []
    -- a point without digits behind it is not part of the number
    let size := if fraction.isEmpty then whole.length else whole.length + 1 + fraction.length
    .ok (.number (numberValue (c :: whole) fraction), size)
  else if c = '"' || c = '\'' then
    match quotedBody c 0 [] rest with
    | .ok (text, size) => .ok (.str (String.ofList text), size)
    | .error size => .error size
  else
    -- signs of two characters come before those of one
    match c, rest with
    | '&', '&' :: _ => .ok (.and, 1)
    | '|', '|' :: _ => .ok (.or, 1)
    | '=', '=' :: _ => .ok (.eq, 1)
    | '!', '=' :: _ => .ok (.notEq, 1)
    | '<', '=' :: _ => .ok (.lessEq, 1)
    | '>', '=' :: _ => .ok (.greaterEq, 1)
    | '!', _ => .ok (.not, 0)
    | '<', _ => .ok (.less, 0)
    | '>', _ => .ok (.greater, 0)
    | '+', _ => .ok (.plus, 0)
    | '-', _ => .ok (.minus, 0)
    | '*', _ => .ok (.star, 0)
    | '/', _ => .ok (.slash, 0)
    | '%', _ => .ok (.percent, 0)
    | '(', _ => .ok (.parenOpen, 0)
    | ')', _ => .ok (.parenClose, 0)
    | '[', _ => .ok (.bracketOpen, 0)
    | ']', _ => .ok (.bracketClose, 0)
    | '\x7b', _ => .ok (.braceOpen, 0)
    | '\x7d', _ => .ok (.braceClose, 0)
    | ',', _ => .ok (.comma, 0)
    | ':', _ => .ok (.colon, 0)
    | '?', _ => .ok (.question, 0)
    | '.', _ => .ok (.dot, 0)
    | _, _ => .error 0

end Token

/-- A token and the byte offset where it starts. -/
structure Lexeme where
  token : Token
  start : Nat
  deriving DecidableEq

/-- The number of bytes of a text in UTF-8. -/
def byteLength (cs : List Char) : Nat := cs.foldl (fun n c => n + c.utf8Size) 0

namespace Lexeme

/-- A position where no token starts, and the text found there. -/
structure BadSequence where
  position : Nat
  text : String

/-- The tokens of the characters from byte offset `pos` on. -/
def scan (pos : Nat) (cs : List Char) : Except BadSequence (List Lexeme) :=
  match cs with
  | [] => .ok []
  | c :: rest =>
    if Token.isSpace c then scan (pos + c.utf8Size) rest
    else
      match Token.next c rest with
      | .error more => .error ⟨pos, String.ofList (c :: rest.take more)⟩
      | .ok (token, more) =>
        match scan (pos + byteLength (c :: rest.take more)) (rest.drop more) with
        | .error e => .error e
        | .ok lexemes => .ok (⟨token, pos⟩ :: lexemes)
termination_by cs.length
decreasing_by all_goals simp only [List.length_cons, List.length_drop]; omega

/-- The tokens of a text. -/
def ofText (text : String) : Except BadSequence (List Lexeme) := scan 0 text.toList

end Lexeme

end ItemComposition
