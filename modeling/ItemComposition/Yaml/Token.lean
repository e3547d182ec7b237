/-!
# YAML: tokens

What the characters of a stream group into. A token list that ends with `failure` belongs to a
stream that is not well formed from there on.
-/

namespace ItemComposition.Yaml

/-- A token. -/
inductive Token where
  | streamEnd
  | versionDirective (major minor : Nat)
  | tagDirective (handle replacement : String)
  | documentStart
  | documentEnd
  | blockSequenceStart
  | blockMappingStart
  | blockEnd
  | flowSequenceStart
  | flowSequenceEnd
  | flowMappingStart
  | flowMappingEnd
  | blockEntry
  | flowEntry
  | key
  | value
  | alias (name : String)
  | anchor (name : String)
  | tag (handle suffix : String)
  | scalar (text : String) (plain : Bool)
  | failure
  deriving DecidableEq, Repr

/-! ## Characters -/

/-- A space or a tab. -/
def isBlank (c : Char) : Bool := c = ' ' || c = '\t'

/-- A character that ends a line. -/
def isBreak (c : Char) : Bool :=
  c = '\n' || c = '\r' || c = '\u0085' || c = '\u2028' || c = '\u2029'

/-- Characters of anchors and tag handles. -/
def isWordChar (c : Char) : Bool := c.isAlphanum || c = '_' || c = '-'

/-- Whether a stream may hold a character. -/
def isAllowed (c : Char) : Bool :=
  let n := c.toNat
  n = 0x09 || n = 0x0A || n = 0x0D || (0x20 ≤ n && n ≤ 0x7E) || n = 0x85
    || (0xA0 ≤ n && n ≤ 0xFFFD) || 0x10000 ≤ n

/-! ## Positions -/

/-- The rest of a stream and where it starts. -/
structure Cursor where
  rest : List Char
  index : Nat
  line : Nat
  column : Nat

namespace Cursor

/-- The start of a stream. -/
def start (cs : List Char) : Cursor := ⟨cs, 0, 0, 0⟩

/-- The character some places ahead. -/
def peek? (c : Cursor) (ahead : Nat) : Option Char := c.rest[ahead]?

/-- Whether a given character stands some places ahead. -/
def has (c : Cursor) (ahead : Nat) (ch : Char) : Bool := c.rest[ahead]? = some ch

/-- Whether a blank, a line break or the end stands some places ahead. -/
def endsWord (c : Cursor) (ahead : Nat) : Bool :=
  match c.rest[ahead]? with
  | some ch => isBlank ch || isBreak ch
  | none => true

/-- Whether a line break or the end comes next. -/
def endsLine (c : Cursor) : Bool :=
  match c.rest with
  | ch :: _ => isBreak ch
  | [] => true

/-- Passes characters that do not end a line. -/
def skip (c : Cursor) (count : Nat) : Cursor :=
  { c with rest := c.rest.drop count, index := c.index + count, column := c.column + count }

/-- Passes characters of a class, which has no line ends. -/
def skipWhile (c : Cursor) (p : Char → Bool) : Cursor :=
  let run := c.rest.takeWhile p
  { c with rest := c.rest.dropWhile p, index := c.index + run.length,
           column := c.column + run.length }

/-- Takes a line break; most are written as a line feed. -/
def takeBreak (c : Cursor) : List Char × Cursor :=
  let past (count : Nat) : Cursor :=
    { rest := c.rest.drop count, index := c.index + count, line := c.line + 1, column := 0 }
  match c.rest with
  | '\r' :: '\n' :: _ => (['\n'], past 2)
  | ch :: _ =>
    if ch = '\u2028' || ch = '\u2029' then ([ch], past 1)
    else if isBreak ch then (['\n'], past 1)
    else ([], c)
  | [] => ([], c)

/-- Whether the marker of a document's start or end stands at the start of a line. -/
def atMarker (c : Cursor) (ch : Char) : Bool :=
  c.column = 0 && c.has 0 ch && c.has 1 ch && c.has 2 ch && c.endsWord 3

/-- Whether any marker stands here. -/
def atAnyMarker (c : Cursor) : Bool := c.atMarker '-' || c.atMarker '.'

end Cursor

end ItemComposition.Yaml
