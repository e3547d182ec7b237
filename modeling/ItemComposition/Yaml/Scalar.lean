import ItemComposition.Yaml.Token

/-!
# YAML: the text of scalars

Quoted, plain and block scalars. Between the parts of a scalar that runs over several lines, line
breaks are folded: one becomes a space, and of more the first is dropped.
-/

namespace ItemComposition.Yaml

/-- The blanks and line breaks between two parts of a scalar. -/
structure Gap where
  /-- Whether there is a line break. -/
  folded : Bool
  blanks : List Char
  first : List Char
  more : List Char

/-- What a gap stands for. -/
def Gap.text (g : Gap) : List Char :=
  if g.folded then
    match g.first with
    | ['\n'] => if g.more.isEmpty then [' '] else g.more
    | first => first ++ g.more
  else g.blanks

/-- Reads a gap. Before `indent`, a line must not start with a tab. -/
def readGap (indent : Option Nat) : Nat → Gap → Cursor → Option (Gap × Cursor)
  | 0, g, c => some (g, c)
  | fuel + 1, g, c =>
    match c.rest with
    | [] => some (g, c)
    | ch :: _ =>
      if isBlank ch then
        match indent with
        | some least =>
          -- a tab is no indentation
          if g.folded && c.column < least && ch = '\t' then none
          else readGap indent fuel (if g.folded then g else { g with blanks := g.blanks ++ [ch] })
            (c.skip 1)
        | none =>
          readGap indent fuel (if g.folded then g else { g with blanks := g.blanks ++ [ch] })
            (c.skip 1)
      else if isBreak ch then
        let (text, next) := c.takeBreak
        if g.folded then readGap indent fuel { g with more := g.more ++ text } next
        else readGap indent fuel ⟨true, [], text, []⟩ next
      else some (g, c)

/-! ## Quoted scalars -/

/-- The character that a letter stands for after a backslash. -/
def escapeOf? : Char → Option Char
  | '0' => some '\x00'
  | 'a' => some '\x07'
  | 'b' => some '\x08'
  | 't' | '\t' => some '\t'
  | 'n' => some '\n'
  | 'v' => some '\x0b'
  | 'f' => some '\x0c'
  | 'r' => some '\r'
  | 'e' => some '\x1b'
  | ' ' => some ' '
  | '"' => some '"'
  | '/' => some '/'
  | '\\' => some '\\'
  | 'N' => some '\u0085'
  | '_' => some '\u00a0'
  | 'L' => some '\u2028'
  | 'P' => some '\u2029'
  | _ => none

/-- How many digits follow a letter after a backslash. -/
def escapeDigits? : Char → Option Nat
  | 'x' => some 2
  | 'u' => some 4
  | 'U' => some 8
  | _ => none

/-- The value of a hexadecimal digit. -/
def hexValue? (c : Char) : Option Nat :=
  if c.isDigit then some (c.toNat - '0'.toNat)
  else if 'a' ≤ c && c ≤ 'f' then some (c.toNat - 'a'.toNat + 10)
  else if 'A' ≤ c && c ≤ 'F' then some (c.toNat - 'A'.toNat + 10)
  else none

/-- The number written by hexadecimal digits. -/
def hexNumber? (cs : List Char) : Option Nat :=
  cs.foldlM (fun n c => (hexValue? c).map (n * 16 + ·)) 0

/-- The character of a code point; surrogates have none. -/
def charOfCode? (n : Nat) : Option Char :=
  if (0xD800 ≤ n && n ≤ 0xDFFF) || 0x10FFFF < n then none else some (Char.ofNat n)

/-- How a run of characters in a quoted scalar ends. -/
inductive RunEnd where
  /-- With a blank, a line break, the closing quote or the end of the stream. -/
  | here
  /-- With a line break after a backslash. -/
  | escapedBreak

/-- Reads characters of a quoted scalar up to a blank, a line break or the closing quote. `acc` is
the text in reverse. -/
def quotedRun (single : Bool) : Nat → List Char → Cursor → Option (List Char × RunEnd × Cursor)
  | 0, _, _ => none
  | fuel + 1, acc, c =>
    if c.endsWord 0 then some (acc, .here, c)
    else
      match c.rest with
      | [] => some (acc, .here, c)
      | ch :: rest =>
        if single then
          if ch = '\'' then
            -- a doubled quote stands for one
            if rest.head? = some '\'' then quotedRun single fuel ('\'' :: acc) (c.skip 2)
            else some (acc, .here, c)
          else quotedRun single fuel (ch :: acc) (c.skip 1)
        else if ch = '"' then some (acc, .here, c)
        else if ch = '\\' then
          match rest with
          | [] => none
          | e :: digits =>
            -- a line break that is escaped joins two lines
            if isBreak e then some (acc, .escapedBreak, ((c.skip 1).takeBreak).2)
            else
              match escapeDigits? e with
              | some count =>
                if (digits.take count).length < count then none
                else
                  match (hexNumber? (digits.take count)).bind charOfCode? with
                  | some decoded => quotedRun single fuel (decoded :: acc) (c.skip (2 + count))
                  | none => none
              | none =>
                match escapeOf? e with
                | some decoded => quotedRun single fuel (decoded :: acc) (c.skip 2)
                | none => none
        else quotedRun single fuel (ch :: acc) (c.skip 1)

/-- Reads a quoted scalar after its opening quote, past its closing one. -/
def quotedTail (single : Bool) : Nat → List Char → Cursor → Option (String × Cursor)
  | 0, _, _ => none
  | fuel + 1, acc, c =>
    if c.atAnyMarker || c.rest.isEmpty then none
    else
      match quotedRun single (c.rest.length + 1) acc c with
      | none => none
      | some (acc, stop, c) =>
        if c.has 0 (if single then '\'' else '"') then
          some (String.ofList acc.reverse, c.skip 1)
        else
          let folded := match stop with
            | .escapedBreak => true
            | .here => false
          match readGap none (c.rest.length + 1) ⟨folded, [], [], []⟩ c with
          | none => none
          | some (g, c) => quotedTail single fuel (g.text.reverse ++ acc) c

/-- Reads a quoted scalar. -/
def readQuoted (single : Bool) (c : Cursor) : Option (String × Cursor) :=
  quotedTail single (c.rest.length + 1) [] (c.skip 1)

/-! ## Plain scalars -/

/-- Characters that end a plain scalar inside a flow collection. -/
def isFlowIndicator (c : Char) : Bool := c = ',' || c = '[' || c = ']' || c = '\x7b' || c = '\x7d'

/-- Reads characters of a plain scalar up to a blank, a line break or an indicator. -/
def plainRun (inFlow : Bool) : Nat → List Char → Cursor → Option (List Char × Cursor)
  | 0, _, _ => none
  | fuel + 1, acc, c =>
    if c.endsWord 0 then some (acc, c)
    else
      match c.rest with
      | [] => some (acc, c)
      | ch :: rest =>
        let next := rest.head?
        -- a colon before an indicator is neither text nor a mark
        if inFlow && ch = ':' && (next.any fun d => isFlowIndicator d || d = '?') then none
        else if (ch = ':' && c.endsWord 1) || (inFlow && isFlowIndicator ch) then some (acc, c)
        else plainRun inFlow fuel (ch :: acc) (c.skip 1)

/-- Reads a plain scalar from where its text or a gap in it starts. The last part of the answer
says whether a line break follows the text. -/
def plainTail (inFlow : Bool) (indent : Nat) : Nat → List Char → List Char → Bool → Cursor →
    Option (List Char × Bool × Cursor)
  | 0, _, _, _, _ => none
  | fuel + 1, acc, gap, folded, c =>
    if c.atAnyMarker || c.has 0 '#' then some (acc, folded, c)
    else
      match plainRun inFlow (c.rest.length + 1) [] c with
      | none => none
      | some (run, c) =>
        let (acc, folded) :=
          if run.isEmpty then (acc, folded) else (run ++ gap.reverse ++ acc, false)
        match c.rest with
        | [] => some (acc, folded, c)
        | ch :: _ =>
          if !(isBlank ch || isBreak ch) then some (acc, folded, c)
          else
            match readGap (some indent) (c.rest.length + 1) ⟨folded, [], [], []⟩ c with
            | none => none
            | some (g, c) =>
              -- a line that is indented less is no part of the scalar
              if !inFlow && c.column < indent then some (acc, g.folded, c)
              else plainTail inFlow indent fuel acc g.text g.folded c

/-- Reads a plain scalar whose lines are indented at least as given. -/
def readPlain (inFlow : Bool) (indent : Nat) (c : Cursor) : Option (String × Bool × Cursor) :=
  match plainTail inFlow indent (c.rest.length + 1) [] [] false c with
  | some (acc, folded, c) => some (String.ofList acc.reverse, folded, c)
  | none => none

/-! ## Block scalars -/

/-- What happens to the line breaks at the end of a block scalar. -/
inductive Chomping where
  | strip
  | clip
  | keep
  deriving DecidableEq

/-- The header of a block scalar: its chomping and the indentation it asks for. -/
def blockHeader (c : Cursor) : Option (Chomping × Option Nat × Cursor) :=
  let chomping? (ch : Char) : Option Chomping :=
    if ch = '+' then some .keep else if ch = '-' then some .strip else none
  let digit? (ch : Char) : Option Nat :=
    if ch.isDigit then some (ch.toNat - '0'.toNat) else none
  let (chomping, increment, c) :=
    match c.rest with
    | a :: rest =>
      match chomping? a, rest.head?.bind digit? with
      | some m, some d => (m, some d, c.skip 2)
      | some m, none => (m, none, c.skip 1)
      | none, _ =>
        match digit? a, rest.head?.bind chomping? with
        | some d, some m => (m, some d, c.skip 2)
        | some d, none => (.clip, some d, c.skip 1)
        | none, _ => (.clip, none, c)
    | [] => (.clip, none, c)
  -- a block cannot ask for no indentation
  if increment = some 0 then none
  else
    let c := c.skipWhile isBlank
    let c := if c.has 0 '#' then c.skipWhile (!isBreak ·) else c
    if c.endsLine then some (chomping, increment, c.takeBreak.2) else none

/-- Reads the indentation and blank lines before a line of a block scalar. An indentation of zero
is not yet known; `widest` is the widest seen. -/
def blockBreaks (indent : Nat) : Nat → Nat → List Char → Cursor → Option (Nat × List Char × Cursor)
  | 0, widest, breaks, c => some (widest, breaks, c)
  | fuel + 1, widest, breaks, c =>
    let spaces := (c.rest.takeWhile (· = ' ')).length
    let taken := if indent = 0 then spaces else min spaces (indent - c.column)
    let c := c.skip taken
    let widest := max widest c.column
    if (indent = 0 || c.column < indent) && c.has 0 '\t' then none
    else
      match c.rest with
      | ch :: _ =>
        if isBreak ch then
          let (text, next) := c.takeBreak
          blockBreaks indent fuel widest (breaks ++ text) next
        else some (widest, breaks, c)
      | [] => some (widest, breaks, c)

/-- The state between the lines of a block scalar. -/
structure BlockState where
  /-- The text in reverse. -/
  acc : List Char
  /-- The break at the end of the last line. -/
  lineBreak : List Char
  /-- The breaks of the blank lines after it. -/
  more : List Char
  /-- Whether the last line starts with a blank. -/
  blank : Bool

/-- Reads the lines of a block scalar. -/
def blockLines (literal : Bool) (indent : Nat) : Nat → BlockState → Cursor →
    Option (BlockState × Cursor)
  | 0, s, c => some (s, c)
  | fuel + 1, s, c =>
    match c.rest with
    | [] => some (s, c)
    | ch :: _ =>
      if c.column ≠ indent then some (s, c)
      else
        let blank := isBlank ch
        let joined :=
          -- two lines of text are joined by a blank, other lines keep their breaks
          if !literal && s.lineBreak = ['\n'] && !s.blank && !blank then
            if s.more.isEmpty then [' '] else []
          else s.lineBreak
        let line := c.rest.takeWhile (!isBreak ·)
        let (lineBreak, next) := (c.skipWhile (!isBreak ·)).takeBreak
        match blockBreaks indent (c.rest.length + 1) 0 [] next with
        | none => none
        | some (_, more, next) =>
          let acc := line.reverse ++ (s.more.reverse ++ (joined.reverse ++ s.acc))
          blockLines literal indent fuel ⟨acc, lineBreak, more, blank⟩ next

/-- Reads a block scalar after its indicator, inside a block of the given indentation. -/
def readBlock (literal : Bool) (outer : Int) (c : Cursor) : Option (String × Cursor) :=
  match blockHeader (c.skip 1) with
  | none => none
  | some (chomping, increment, c) =>
    let asked := match increment with
      | some n => (max outer 0).toNat + n
      | none => 0
    match blockBreaks asked (c.rest.length + 1) 0 [] c with
    | none => none
    | some (widest, breaks, c) =>
      -- without a number the first lines decide, but not below the node around
      let indent := if asked = 0 then max (max widest (outer + 1).toNat) 1 else asked
      match blockLines literal indent (c.rest.length + 1) ⟨[], [], breaks, false⟩ c with
      | none => none
      | some (s, c) =>
        let tail := match chomping with
          | .strip => []
          | .clip => s.lineBreak
          | .keep => s.lineBreak ++ s.more
        some (String.ofList (s.acc.reverse ++ tail), c)

end ItemComposition.Yaml
