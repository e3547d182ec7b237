import ItemComposition.Parsed
import ItemComposition.Toml.Scalar

/-!
# Reading TOML documents

A document is read line by line: a key with a value, a header, or a comment. Values inside
brackets may run over lines. `read?` yields the table of the document, or nothing for a text that
is no document.
-/

namespace ItemComposition.Toml

/-! ## Between values -/

/-- A comment up to the end of its line. -/
def comment : Reader Unit
  | '#' :: rest => some ((), rest.dropWhile isPlain)
  | _ => none

/-- Blanks, line ends and comments. -/
def filling : Reader Unit := fun cs =>
  match cs with
  | c :: rest =>
    if isSpace c then some ((), rest)
    else (newline cs).orElse fun _ => comment cs
  | [] => none

/-- Skips blanks, line ends and comments. -/
def skipFilling (cs : List Char) : List Char := (Reader.many filling cs).2

/-- Skips blanks within a line. -/
def skipSpace (cs : List Char) : List Char := cs.dropWhile isSpace

/-! ## Keys -/

/-- Characters of keys without quotes. -/
def isBareKeyChar (c : Char) : Bool := c.isAlphanum || c = '_' || c = '-'

/-- One part of a key. -/
def keyPart : Reader String := fun cs =>
  match cs.takeWhile isBareKeyChar with
  | [] => shortTextOf cs
  | name => some (String.ofList name, cs.dropWhile isBareKeyChar)

/-- A dot and one more part of a key. -/
def moreKey : Reader String := fun cs =>
  match skipSpace cs with
  | '.' :: rest => keyPart (skipSpace rest)
  | _ => none

/-- A dotted key: the path of its tables, and its last part. -/
def dottedKey : Reader (List String × String) := fun cs =>
  match keyPart cs with
  | none => none
  | some (first, rest) =>
    let (more, rest) := Reader.many moreKey rest
    match (first :: more).reverse with
    | last :: path => some ((path.reverse, last), rest)
    | [] => none

/-! ## Values -/

/-- Reads the items of a list or an inline table up to the closing character. A comma may stand
after the last one. -/
def itemsUpTo {α : Type} (close : Char) (item : List Char → Option (α × List Char))
    (input : List Char) : Option (List α × List Char) :=
  match skipFilling input with
  | [] => none
  | c :: rest =>
    -- so a comma may stand before the closing mark
    if c = close then some ([], rest)
    else
      match item (c :: rest) with
      | none => none
      | some (a, rest) =>
        match skipFilling rest with
        | [] => none
        | d :: rest =>
          if d = close then some ([a], rest)
          else if d = ',' then
            if _h : rest.length < input.length then
              (itemsUpTo close item rest).map fun (more, rest) => (a :: more, rest)
            else none
          else none
termination_by input.length

/-- A key with a value inside braces. -/
def inlineMember (value : List Char → Option (Value × List Char)) :
    Reader ((List String × String) × Value) := fun cs =>
  match dottedKey cs with
  | none => none
  | some (key, rest) =>
    match skipFilling rest with
    | '=' :: rest => (value (skipFilling rest)).map fun (v, rest) => ((key, v), rest)
    | _ => none

/-- The table of the keys inside braces. -/
def inlineTable? (members : List ((List String × String) × Value)) : Option Value :=
  (members.foldlM (fun table m => Members.assign m.1.1 m.1.2 m.2 .header table) []).map
    fun table => .table (Members.values table)

/-- A value inside at most `depth` further lists and tables. -/
def value (depth : Nat) (cs : List Char) : Option (Value × List Char) :=
  match cs with
  | [] => none
  | c :: rest =>
    if c = '"' || c = '\'' then (textOf cs).map fun (s, rest) => (.text s, rest)
    else if c = '[' then
      match depth with
      | 0 => none
      | depth + 1 =>
        (itemsUpTo ']' (value depth) rest).map fun (items, rest) => (.list items, rest)
    else if c = '\x7b' then
      match depth with
      | 0 => none
      | depth + 1 =>
        (itemsUpTo '\x7d' (inlineMember (value depth)) rest).bind fun (members, rest) =>
          (inlineTable? members).map (·, rest)
    else
      let (word, rest) := takeWord cs
      (word? word).map (·, rest)

/-- How deep lists and tables may nest. -/
def maxDepth : Nat := 80

/-! ## Lines -/

/-- A line of a document. -/
inductive Line where
  | blank
  | header (path : List String) (key : String)
  | listHeader (path : List String) (key : String)
  | assignment (path : List String) (key : String) (v : Value)

/-- A header after its opening brackets, up to its closing ones. -/
def headerTail (close : String) : Reader (List String × String) := fun cs => do
  let (key, rest) ← dottedKey (skipSpace cs)
  let (_, rest) ← Reader.word close (skipSpace rest)
  return (key, rest)

/-- What stands on a line, without what follows it there. -/
def lineStart (cs : List Char) : Option (Line × List Char) :=
  match cs with
  | '[' :: '[' :: rest => (headerTail "]]" rest).map fun (k, rest) => (.listHeader k.1 k.2, rest)
  | '[' :: rest => (headerTail "]" rest).map fun (k, rest) => (.header k.1 k.2, rest)
  | _ =>
    -- a line without a key is blank or a comment
    match dottedKey cs with
    | none => some (.blank, cs)
    | some (key, rest) =>
      match skipSpace rest with
      | '=' :: rest =>
        (value maxDepth (skipSpace rest)).map fun (v, rest) => (.assignment key.1 key.2 v, rest)
      | _ => none

/-- The end of a line after blanks and a comment. -/
def lineEnd (cs : List Char) : Option (List Char) :=
  let cs := skipSpace cs
  match ((comment cs).map Prod.snd).getD cs with
  | [] => some []
  | rest => (newline rest).map Prod.snd

/-- The lines of a document. -/
def lines (input : List Char) : Option (List Line) :=
  if input.isEmpty then some []
  else
    match lineStart (skipSpace input) with
    | none => none
    | some (line, rest) =>
      match lineEnd rest with
      | none => none
      | some rest =>
        if _h : rest.length < input.length then (lines rest).map (line :: ·) else none
termination_by input.length

/-- A document being built, and the path of its current table. -/
structure Draft where
  members : Members
  path : List String

/-- Takes in a line. -/
def Draft.take (d : Draft) : Line → Option Draft
  | .blank => some d
  | .header path key => (Members.openTable path key d.members).map (⟨·, path ++ [key]⟩)
  | .listHeader path key => (Members.appendTable path key d.members).map (⟨·, path ++ [key]⟩)
  | .assignment path key v =>
    (Members.within false d.path (Members.assign path key v) .header d.members).map (⟨·, d.path⟩)

/-- The table of a document. A mark of byte order at its start does not count. -/
def read? (text : String) : Option (List (String × Value)) :=
  let cs := match text.toList with
    | '\uFEFF' :: rest => rest
    | cs => cs
  (lines cs).bind fun ls =>
    (ls.foldlM Draft.take ⟨[], []⟩).map fun d => Members.values d.members

end ItemComposition.Toml
