import ItemComposition.Decimal.Reader
import ItemComposition.Text.Blank
import ItemComposition.Text.Letters

/-!
# Text filters

Functions from text to text, on lists of characters.
-/

namespace ItemComposition.Interpolation.Words

/-- The text after a mark at its start. -/
def dropMark? (mark cs : List Char) : Option (List Char) :=
  if mark.isPrefixOf cs then some (cs.drop mark.length) else none

/-- The parts between non-overlapping marks, found from the left, for a mark that is not empty. -/
def splitAt (mark : List Char) (part cs : List Char) : List (List Char) :=
  match cs with
  | [] => [part.reverse]
  | c :: rest =>
    if mark.isPrefixOf (c :: rest) then part.reverse :: splitAt mark [] (rest.drop (mark.length - 1))
    else splitAt mark (c :: part) rest
termination_by cs.length
decreasing_by all_goals simp [List.length_drop]; try omega

/-- The parts between marks. An empty mark stands at the start, at the end and between any two
characters. -/
def split (mark text : String) : List String :=
  if mark = "" then "" :: (text.toList.map String.singleton ++ [""])
  else (splitAt mark.toList [] text.toList).map String.ofList

/-- The text with every mark replaced. -/
def replace (mark new text : String) : String := new.intercalate (split mark text)

/-- Whether one text stands somewhere in another. -/
def isInside (part text : String) : Bool := 1 < (split part text).length

/-- Drops a mark from the start as long as it stands there; an empty mark drops nothing. -/
def dropMarks (mark cs : List Char) : List Char :=
  if _h : mark ≠ [] ∧ mark.isPrefixOf cs then dropMarks mark (cs.drop mark.length) else cs
termination_by cs.length
decreasing_by
  obtain ⟨hne, hp⟩ := _h
  have hpos : 0 < mark.length := List.length_pos_iff.2 hne
  have hle : mark.length ≤ cs.length := (List.isPrefixOf_iff_prefix.1 hp).length_le
  simp [List.length_drop]
  omega

/-- The words between blanks. -/
def words (cs : List Char) : List (List Char) :=
  (cs.splitBy fun a b => Text.isBlank a == Text.isBlank b).filter (!·.all Text.isBlank)

/-- The first letter in upper case and all others in lower case. -/
def capitalize (text : String) : String :=
  match text.toList with
  | [] => ""
  | c :: rest => String.ofList (Text.upperChar c) ++ Text.lower (String.ofList rest)

/-- Characters of words: letters, digits and the underscore. -/
def isWordChar (c : Char) : Bool :=
  c.isAlphanum || c = '_' || (128 ≤ c.toNat && (Text.isCased c || 0x0370 ≤ c.toNat) && !Text.isBlank c
    && !(0x2000 ≤ c.toNat && c.toNat < 0x2C00) && !(0x3000 ≤ c.toNat && c.toNat < 0x3005)
    && !(0x1F000 ≤ c.toNat && c.toNat < 0x20000) && !(0xE000 ≤ c.toNat && c.toNat < 0xF900))

/-- A run of word characters and apostrophes with its first letter in upper case and the others in
lower case; apostrophes around it do not count. -/
def titleRun (run : List Char) : List Char :=
  let lead := run.takeWhile (!isWordChar ·)
  let body := run.dropWhile (!isWordChar ·)
  let core := (body.reverse.dropWhile (!isWordChar ·)).reverse
  match core with
  | [] => run
  | c :: rest =>
    lead ++ Text.upperChar c ++ (Text.lower (String.ofList rest)).toList ++ body.drop core.length

/-- Every word with its first letter in upper case and the others in lower case. An apostrophe
inside a word belongs to it. -/
def title (cs : List Char) : List Char :=
  let inWord (c : Char) : Bool := isWordChar c || c = '\''
  ((cs.splitBy fun a b => inWord a == inWord b).map titleRun).flatten

/-- Characters that continue the one before: marks, joiners and variation selectors. -/
def isContinuation (c : Char) : Bool :=
  let n := c.toNat
  (0x300 ≤ n && n ≤ 0x36F) || n = 0x200D || (0xFE00 ≤ n && n ≤ 0xFE0F) || (0x1F3FB ≤ n && n ≤ 0x1F3FF)
    || (0x1AB0 ≤ n && n ≤ 0x1AFF) || (0x20D0 ≤ n && n ≤ 0x20F0)

/-- Splits a text into what a reader takes for one character each. -/
def clusters (cs : List Char) : List (List Char) :=
  cs.splitBy fun a b =>
    isContinuation b || a.toNat = 0x200D || (a = '\r' && b = '\n')

/-- The first `count` characters and a mark of what was cut off. -/
def truncate (count : Nat) (mark : String) (text : String) : String :=
  let parts := clusters text.toList
  if parts.length ≤ count then text
  else String.ofList (parts.take count).flatten ++ mark

/-- Backslashes before quotes and backslashes. -/
def addSlashes (cs : List Char) : List Char :=
  cs.flatMap fun c => if c = '\\' || c = '"' || c = '\'' then ['\\', c] else [c]

/-- The characters that mark-up reserves, written as entities. -/
def escapeMarkup (cs : List Char) : List Char :=
  cs.flatMap fun c =>
    match c with
    | '&' => "&amp;".toList
    | '<' => "&lt;".toList
    | '>' => "&gt;".toList
    | '"' => "&quot;".toList
    | '\'' => "&#x27;".toList
    | '/' => "&#x2F;".toList
    | c => [c]

/-- The same for strict mark-up, where a slash is no reserved character. -/
def escapeStrictMarkup (cs : List Char) : List Char :=
  cs.flatMap fun c =>
    match c with
    | '&' => "&amp;".toList
    | '<' => "&lt;".toList
    | '>' => "&gt;".toList
    | '"' => "&quot;".toList
    | '\'' => "&apos;".toList
    | c => [c]

/-- Line ends as line-break tags. -/
def lineBreaks : List Char → List Char
  | '\r' :: '\n' :: rest => "<br>".toList ++ lineBreaks rest
  | '\n' :: rest => "<br>".toList ++ lineBreaks rest
  | c :: rest => c :: lineBreaks rest
  | [] => []

/-- The lines of a text; a line end at its end adds no line. -/
def lines (text : String) : List (List Char) :=
  let parts := splitAt ['\n'] [] text.toList
  let parts := if parts.getLast? = some [] then parts.dropLast else parts
  parts.map fun l => if l.getLast? = some '\r' then l.dropLast else l

/-- A lead before every line: before the first and before blank ones only if asked for. -/
def indent (lead : String) (first blank : Bool) (text : String) : String :=
  let indented (l : List Char) : String :=
    (if blank || !(Text.trimStart l).isEmpty then lead else "") ++ String.ofList l
  match lines text with
  | [] => ""
  | l :: rest =>
    "\n".intercalate (((if first then lead else "") ++ String.ofList l) :: rest.map indented)

/-- The text after the end of a comment in mark-up that stays on one line. -/
def afterComment? : List Char → Option (List Char)
  | '-' :: '-' :: '>' :: rest => some rest
  | '\n' :: _ => none
  | _ :: rest => afterComment? rest
  | [] => none

/-- The text after a tag or comment that starts here. -/
def afterTag? (cs : List Char) : Option (List Char) :=
  match cs with
  | '<' :: rest =>
    let whole := match dropMark? ['!', '-', '-'] rest with
      | some inner => afterComment? inner
      | none => none
    -- a comment that does not end is looked at as a tag
    match whole with
    | some after => some after
    | none =>
      match rest.dropWhile (· ≠ '>') with
      | _ :: after => some after
      | [] => none
  | _ => none

/-- The text without tags and comments. -/
def stripTags (cs : List Char) : List Char := go cs.length cs
where
  go (fuel : Nat) (cs : List Char) : List Char :=
    match fuel, cs with
    | 0, cs => cs
    | _, [] => []
    | fuel + 1, c :: rest =>
      match afterTag? (c :: rest) with
      | some after => go fuel after
      | none => c :: go fuel rest

/-- The text without blanks between tags. -/
def spaceless : List Char → List Char
  | [] => []
  | '>' :: rest =>
    let after := rest.dropWhile Text.isBlank
    -- blanks are only left out between two tags
    if after.length < rest.length && after.head? = some '<' then '>' :: skipBlanks rest
    else '>' :: spaceless rest
  | c :: rest => c :: spaceless rest
where
  skipBlanks : List Char → List Char
    | [] => []
    | c :: rest => if Text.isBlank c then skipBlanks rest else c :: spaceless rest

/-- A byte as a percent sign and two digits. -/
def percent (b : UInt8) : List Char :=
  ['%', (Nat.digitChar (b.toNat / 16)).toUpper, (Nat.digitChar (b.toNat % 16)).toUpper]

/-- Bytes outside a set as percent signs and digits. -/
def percentEncode (keep : Char → Bool) (text : String) : String :=
  String.ofList (text.toList.flatMap fun c =>
    if c.toNat < 128 && keep c then [c]
    else (String.singleton c).toUTF8.toList.flatMap percent)

/-- What an address keeps: letters, digits, and the signs `-`, `.`, `_`, `~`, `%` and `/`. -/
def isAddressChar (c : Char) : Bool :=
  c.isAlphanum || c = '-' || c = '.' || c = '_' || c = '~' || c = '/' || c = '%'

/-- Lower-case letters and digits, all else as single hyphens between them. Only characters of
the basic Latin block are kept. -/
def slug (cs : List Char) : List Char :=
  let marked := cs.map fun c => if c.isAlphanum then c.toLower else '-'
  let runs := (marked.splitBy fun a b => (a == '-') == (b == '-')).filter fun r => r.head? ≠ some '-'
  ['-'].intercalate runs

/-- A whole number of 64 bits in a base from two to thirty-six, with an optional sign. -/
def readInt? (base : Nat) (cs : List Char) : Option Int :=
  (Decimal.readInt? base cs).filter (Word.isSigned 64)

end ItemComposition.Interpolation.Words
