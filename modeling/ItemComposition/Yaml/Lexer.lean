import ItemComposition.Yaml.Scalar

/-!
# YAML: from characters to tokens

Blocks are found by indentation: a token in a deeper column opens a block, one in a shallower
column closes blocks. A scalar turns out to be a mapping key only when the colon after it is
reached, so the place of every token that may start a key is remembered until then.

`tokens` is the entry point. Every step takes at least one character off the stream, which bounds
the number of steps.
-/

namespace ItemComposition.Yaml

/-- The place of a token that may start a mapping key. -/
structure Candidate where
  /-- Whether the token has to be a key, for its column is that of the keys around it. -/
  required : Bool
  /-- How many tokens stand before it. -/
  position : Nat
  index : Nat
  line : Nat
  column : Nat

/-- The state between tokens. -/
structure Lexer where
  cursor : Cursor
  /-- The tokens so far, last one first. -/
  tokens : List Token
  count : Nat
  /-- The column of the innermost block, or `-1`. -/
  indent : Int
  /-- The columns of the blocks around it. -/
  outer : List Int
  /-- Whether a key may start here. -/
  keyAllowed : Bool
  /-- The candidate of each flow collection, innermost first, and of the blocks. -/
  candidates : List (Option Candidate)

namespace Lexer

/-- The state at the start of a stream. -/
def start (cs : List Char) : Lexer := ⟨.start cs, [], 0, -1, [], true, [none]⟩

/-- Whether the state is inside a flow collection. -/
def inFlow (s : Lexer) : Bool := 1 < s.candidates.length

/-- Adds a token. -/
def push (s : Lexer) (t : Token) : Lexer := { s with tokens := t :: s.tokens, count := s.count + 1 }

/-- Adds a token before others. -/
def insertAt (s : Lexer) (position : Nat) (t : Token) : Lexer :=
  let later := s.count - position
  { s with tokens := s.tokens.take later ++ t :: s.tokens.drop later, count := s.count + 1 }

/-- Closes the blocks that are deeper than a column. -/
def unroll (column : Int) : Nat → Lexer → Lexer
  | 0, s => s
  | fuel + 1, s =>
    if s.inFlow || s.indent ≤ column then s
    else
      let closed := s.push .blockEnd
      match s.outer with
      | [] => { closed with indent := -1 }
      | i :: rest => unroll column fuel { closed with indent := i, outer := rest }

/-- Closes the blocks that are deeper than a column. -/
def closeBlocks (s : Lexer) (column : Int) : Lexer := unroll column (s.outer.length + 1) s

/-- Opens a block at a column that is deeper than the innermost block. -/
def openBlock (s : Lexer) (column : Nat) (position : Option Nat) (t : Token) : Lexer :=
  if s.inFlow || (column : Int) ≤ s.indent then s
  else
    let deeper := { s with indent := column, outer := s.indent :: s.outer }
    match position with
    | some p => deeper.insertAt p t
    | none => deeper.push t

/-- The candidate that counts here, unless its line has ended or it lies too far back. -/
def candidate? (s : Lexer) : Option Candidate :=
  match s.candidates with
  | some k :: _ =>
    if k.line < s.cursor.line || k.index + 1024 < s.cursor.index then none else some k
  | _ => none

/-- Whether a token that has to be a key has turned out to be none. -/
def missesKey (s : Lexer) : Bool :=
  match s.candidates with
  | some k :: _ => k.required
  | _ => false

/-- Whether a token that has to be a key is no longer a possible one. -/
def hasStaleKey (s : Lexer) : Bool :=
  s.candidates.any fun
    | some k => k.required && (k.line < s.cursor.line || k.index + 1024 < s.cursor.index)
    | none => false

/-- Forgets the candidate. -/
def dropCandidate (s : Lexer) : Option Lexer :=
  if s.missesKey then none else some { s with candidates := none :: s.candidates.tail }

/-- Remembers the next token as a candidate, if a key may start here. -/
def saveCandidate (s : Lexer) : Option Lexer :=
  if s.keyAllowed then do
    let s ← s.dropCandidate
    let required := !s.inFlow && s.indent = (s.cursor.column : Int)
    let k : Candidate := ⟨required, s.count, s.cursor.index, s.cursor.line, s.cursor.column⟩
    return { s with candidates := some k :: s.candidates.tail }
  else some s

/-- Passes blanks, comments and line breaks before a token. -/
def toNextToken : Nat → Lexer → Lexer
  | 0, s => s
  | fuel + 1, s =>
    let c := s.cursor
    -- a mark of the byte order may start a line
    let c := if c.column = 0 && c.has 0 '\ufeff' then c.skip 1 else c
    -- a tab is no indentation, so none may stand where a key could start
    let tabs := s.inFlow || !s.keyAllowed
    let c := c.skipWhile fun ch => ch = ' ' || (tabs && ch = '\t')
    let c := if c.has 0 '#' then c.skipWhile (!isBreak ·) else c
    match c.rest with
    | ch :: _ =>
      if isBreak ch then
        toNextToken fuel { s with cursor := c.takeBreak.2, keyAllowed := s.keyAllowed || !s.inFlow }
      else { s with cursor := c }
    | [] => { s with cursor := c }

/-! ## Directives, anchors and tags -/

/-- A number of at most nine digits. -/
def versionNumber (c : Cursor) : Option (Nat × Cursor) :=
  let digits := c.rest.takeWhile Char.isDigit
  if digits.isEmpty || 9 < digits.length then none
  else some (digits.foldl (fun n d => n * 10 + (d.toNat - '0'.toNat)) 0, c.skip digits.length)

/-- The handle of a tag. In a directive it ends with an exclamation mark. -/
def tagHandle (directive : Bool) (c : Cursor) : Option (List Char × Cursor) :=
  if c.has 0 '!' then
    let word := (c.rest.drop 1).takeWhile isWordChar
    let after := c.skip (1 + word.length)
    if after.has 0 '!' then some ('!' :: word ++ ['!'], after.skip 1)
    else if directive && !word.isEmpty then none
    else some ('!' :: word, after)
  else none

/-- Characters of tags; `wide` adds those that end a short tag. -/
def isTagChar (wide : Bool) (c : Char) : Bool :=
  isWordChar c || ";/?:@&=+$.%!~*'()".toList.contains c || (wide && ",[]".toList.contains c)

/-- A byte written as a percent sign and two digits. -/
def percentByte : List Char → Option (Nat × List Char)
  | '%' :: a :: b :: rest => do
    let high ← hexValue? a
    let low ← hexValue? b
    return (high * 16 + low, rest)
  | _ => none

/-- A character written as the bytes of its encoding. -/
def percentChar (cs : List Char) : Option (Char × List Char) := do
  let (lead, rest) ← percentByte cs
  let more (count : Nat) (value : Nat) : Option (Char × List Char) := do
    let (n, rest) ← (List.range count).foldlM (fun (n, cs) _ => do
      -- the bytes after the first have `10` as their highest bits
      let (b, rest) ← percentByte cs
      if b / 64 = 2 then return (n * 64 + b % 64, rest) else none) (value, rest)
    return (Char.ofNat n, rest)
  if lead < 0x80 then return (Char.ofNat lead, rest)
  else if lead / 32 = 6 then more 1 (lead % 32)
  else if lead / 16 = 14 then more 2 (lead % 16)
  else if lead / 8 = 30 then more 3 (lead % 8)
  else none

/-- The rest of a tag, with its percent signs resolved. -/
def tagText (wide : Bool) : Nat → List Char → Cursor → Option (List Char × Cursor)
  | 0, acc, c => some (acc.reverse, c)
  | fuel + 1, acc, c =>
    match c.rest with
    | ch :: _ =>
      if ch = '%' then
        match percentChar c.rest with
        | some (decoded, rest) =>
          tagText wide fuel (decoded :: acc) (c.skip (c.rest.length - rest.length))
        | none => none
      else if isTagChar wide ch then tagText wide fuel (ch :: acc) (c.skip 1)
      else some (acc.reverse, c)
    | [] => some (acc.reverse, c)

/-- The version in a directive. -/
def versionBody (c : Cursor) : Option (Token × Cursor) := do
  let (major, c) ← versionNumber c
  let (minor, c) ← if c.has 0 '.' then versionNumber (c.skip 1) else none
  return (.versionDirective major minor, c)

/-- The handle and what it stands for in a directive. -/
def tagBody (c : Cursor) : Option (Token × Cursor) := do
  let (handle, c) ← tagHandle true c
  let (replacement, c) ←
    if c.rest.head?.any isBlank then tagText true (c.rest.length + 1) [] (c.skipWhile isBlank)
    else none
  if replacement.isEmpty || !c.endsWord 0 then none
  else return (.tagDirective (String.ofList handle) (String.ofList replacement), c)

/-- A directive after its percent sign, up to the end of its line. -/
def directive (c : Cursor) : Option (Token × Cursor) := do
  let name := c.rest.takeWhile isWordChar
  let after := c.skip name.length
  let body := after.skipWhile isBlank
  let (t, c) ←
    if name.isEmpty || !after.endsWord 0 then none
    else if String.ofList name = "YAML" then versionBody body
    else if String.ofList name = "TAG" then tagBody body
    else none
  let c := c.skipWhile isBlank
  let c := if c.has 0 '#' then c.skipWhile (!isBreak ·) else c
  if c.endsLine then return (t, c.takeBreak.2) else none

/-- Characters that may follow an anchor. -/
def mayFollowAnchor (c : Cursor) : Bool :=
  c.endsWord 0 || c.rest.head?.any fun ch => "?:,]\x7d%@".toList.contains ch || ch.toNat = 96

/-- The name of an anchor or alias. -/
def anchorName (c : Cursor) : Option (String × Cursor) :=
  let name := (c.rest.drop 1).takeWhile isWordChar
  let after := c.skip (1 + name.length)
  if name.isEmpty || !mayFollowAnchor after then none
  else some (String.ofList name, after)

/-- A tag between angle brackets. -/
def verbatimTag (c : Cursor) : Option (Token × Cursor) := do
  let (suffix, c) ← tagText true (c.rest.length + 1) [] (c.skip 2)
  if suffix.isEmpty || !c.has 0 '>' then none
  else return (.tag "" (String.ofList suffix), c.skip 1)

/-- A tag with a handle. A lone exclamation mark is a tag of its own. -/
def shortTag (c : Cursor) : Option (Token × Cursor) := do
  let (handle, c) ← tagHandle false c
  let (more, c) ← tagText false (c.rest.length + 1) [] c
  if 1 < handle.length && handle.getLast? = some '!' then
    if more.isEmpty then none
    else return (.tag (String.ofList handle) (String.ofList more), c)
  else
    let suffix := handle.drop 1 ++ more
    return (if suffix.isEmpty then .tag "" "!" else .tag "!" (String.ofList suffix), c)

/-- A tag. -/
def tag (inFlow : Bool) (c : Cursor) : Option (Token × Cursor) :=
  match if c.has 1 '<' then verbatimTag c else shortTag c with
  | some (t, c) => if c.endsWord 0 || (inFlow && c.has 0 ',') then some (t, c) else none
  | none => none

/-! ## Steps -/

/-- Adds a token that is one character. -/
def single (s : Lexer) (t : Token) : Lexer := { s.push t with cursor := s.cursor.skip 1 }

/-- Ends all blocks, and with them what stands before the next document. -/
def endDocument (s : Lexer) : Option Lexer := do
  let s ← (s.closeBlocks (-1)).dropCandidate
  return { s with keyAllowed := false }

/-- The marker of a document's start or end. -/
def marker (s : Lexer) (t : Token) : Option Lexer := do
  let s ← s.endDocument
  return { s.push t with cursor := s.cursor.skip 3 }

/-- The start of a flow collection. -/
def openFlow (s : Lexer) (t : Token) : Option Lexer := do
  let s ← s.saveCandidate
  return { s.single t with candidates := none :: s.candidates, keyAllowed := true }

/-- The end of a flow collection. -/
def closeFlow (s : Lexer) (t : Token) : Option Lexer := do
  let s ← s.dropCandidate
  let candidates := if s.inFlow then s.candidates.tail else s.candidates
  return { s.single t with candidates, keyAllowed := false }

/-- A comma in a flow collection. -/
def flowEntry (s : Lexer) : Option Lexer := do
  let s ← s.dropCandidate
  return { s.single .flowEntry with keyAllowed := true }

/-- A hyphen before an entry. -/
def blockEntry (s : Lexer) : Option Lexer := do
  let opened := s.openBlock s.cursor.column none .blockSequenceStart
  let s ← if s.inFlow || s.keyAllowed then opened.dropCandidate else none
  return { s.single .blockEntry with keyAllowed := true }

/-- A question mark before a key. -/
def explicitKey (s : Lexer) : Option Lexer := do
  let opened := s.openBlock s.cursor.column none .blockMappingStart
  let s ← if s.inFlow || s.keyAllowed then opened.dropCandidate else none
  return { s.single .key with keyAllowed := !s.inFlow }

/-- A colon before a value: what it follows turns out to be a key. -/
def value (s : Lexer) : Option Lexer :=
  match s.candidate? with
  | some k =>
    -- the tokens of the key have been written already, so its marks go in before them
    let s := s.insertAt k.position .key
    let s := s.openBlock k.column (some k.position) .blockMappingStart
    let s := { s with candidates := none :: s.candidates.tail, keyAllowed := false }
    some (s.single .value)
  | none =>
    -- in a flow collection the key may be missing
    if s.inFlow then some { s.single .value with keyAllowed := false }
    else if s.keyAllowed then
      let s := s.openBlock s.cursor.column none .blockMappingStart
      some { s.single .value with keyAllowed := true }
    else none

/-- An anchor or an alias. -/
def anchor (s : Lexer) (isAlias : Bool) : Option Lexer := do
  let s ← s.saveCandidate
  let (name, c) ← anchorName s.cursor
  return { s.push (if isAlias then .alias name else .anchor name) with
    cursor := c, keyAllowed := false }

/-- A tag before a node. -/
def tagged (s : Lexer) : Option Lexer := do
  let s ← s.saveCandidate
  let (t, c) ← tag s.inFlow s.cursor
  return { s.push t with cursor := c, keyAllowed := false }

/-- A block scalar. -/
def blockScalar (s : Lexer) (literal : Bool) : Option Lexer := do
  let s ← s.dropCandidate
  let (text, c) ← readBlock literal s.indent s.cursor
  return { s.push (.scalar text false) with cursor := c, keyAllowed := true }

/-- A quoted scalar. -/
def quotedScalar (s : Lexer) (isSingle : Bool) : Option Lexer := do
  let s ← s.saveCandidate
  let (text, c) ← readQuoted isSingle s.cursor
  return { s.push (.scalar text false) with cursor := c, keyAllowed := false }

/-- A plain scalar. -/
def plainScalar (s : Lexer) : Option Lexer := do
  let s ← s.saveCandidate
  let (text, folded, c) ← readPlain s.inFlow (s.indent + 1).toNat s.cursor
  return { s.push (.scalar text true) with cursor := c, keyAllowed := folded }

/-- Characters that a plain scalar does not start with. -/
def isIndicator (c : Char) : Bool :=
  "-?:,[]\x7b\x7d#&*!|>'\"%@".toList.contains c || c.toNat = 96

/-- Whether a plain scalar starts here. -/
def startsPlain (s : Lexer) (ch : Char) : Bool :=
  let next := s.cursor.peek? 1
  !(isIndicator ch || isBlank ch) || (ch = '-' && !(next.any isBlank))
    || (!s.inFlow && (ch = '?' || ch = ':') && !s.cursor.endsWord 1)

/-- The next token that starts with a given character. -/
def tokenAt (s : Lexer) (ch : Char) : Option Lexer :=
  let c := s.cursor
  let ends := c.endsWord 1
  if c.column = 0 && ch = '%' then do
    let s ← s.endDocument
    let (t, next) ← directive (c.skip 1)
    return { s.push t with cursor := next }
  else if c.atMarker '-' then s.marker .documentStart
  else if c.atMarker '.' then s.marker .documentEnd
  else if ch = '[' then s.openFlow .flowSequenceStart
  else if ch = '\x7b' then s.openFlow .flowMappingStart
  else if ch = ']' then s.closeFlow .flowSequenceEnd
  else if ch = '\x7d' then s.closeFlow .flowMappingEnd
  else if ch = ',' then s.flowEntry
  else if ch = '-' && ends then s.blockEntry
  else if ch = '?' && (s.inFlow || ends) then s.explicitKey
  else if ch = ':' && (s.inFlow || ends) then s.value
  else if ch = '*' then s.anchor true
  else if ch = '&' then s.anchor false
  else if ch = '!' then s.tagged
  else if ch = '|' && !s.inFlow then s.blockScalar true
  else if ch = '>' && !s.inFlow then s.blockScalar false
  else if ch = '\'' then s.quotedScalar true
  else if ch = '"' then s.quotedScalar false
  else if s.startsPlain ch then s.plainScalar
  else none

/-- All tokens from a state on; the list ends with the end of the stream or with a failure. -/
def run : Nat → Lexer → List Token
  | 0, s => (Token.failure :: s.tokens).reverse
  | fuel + 1, s =>
    let s := toNextToken (s.cursor.rest.length + 1) s
    -- a key has to meet its colon on its own line
    if s.hasStaleKey then (Token.failure :: s.tokens).reverse
    else
      let s := s.closeBlocks s.cursor.column
      match s.cursor.rest with
      | [] =>
        match s.endDocument with
        | some s => (Token.streamEnd :: s.tokens).reverse
        | none => (Token.failure :: s.tokens).reverse
      | ch :: _ =>
        match s.tokenAt ch with
        | some next => run fuel next
        | none => (Token.failure :: s.tokens).reverse

end Lexer

/-- The tokens of a stream. -/
def tokens (cs : List Char) : List Token :=
  if cs.all isAllowed then (Lexer.start cs).run (cs.length + 1) else [.failure]

end ItemComposition.Yaml
