import ItemComposition.Decimal.Reader
import ItemComposition.Decimal.Text
import ItemComposition.Json.Reader
import ItemComposition.Text.Reader
import ItemComposition.Toml.Value

/-!
# Texts, numbers and times in TOML

The values that have no parts. Texts stand in quotes, basic ones with escapes and literal ones
without; in three quotes they may run over lines. All other values are words: numbers in four
bases with underscores between digits, floating-point numbers, truth values, dates and times.
-/

namespace ItemComposition.Toml

/-- Whether a character may stand in a text or a comment: all but controls other than the tab. -/
def isPlain (c : Char) : Bool := c = '\t' || (32 ≤ c.toNat && c.toNat ≠ 127)

/-- Blanks within a line. -/
def isSpace (c : Char) : Bool := c = ' ' || c = '\t'

/-- The end of a line. -/
def newline : Reader Unit
  | '\n' :: rest => some ((), rest)
  | '\r' :: '\n' :: rest => some ((), rest)
  | _ => none

/-! ## Texts -/

/-- A character of the given number, if there is one. -/
def charOf? (n : Nat) : Option Char :=
  if n < 0xD800 || (0xE000 ≤ n && n < 0x110000) then some (Char.ofNat n) else none

/-- The number of a fixed count of hexadecimal digits. -/
def hexDigits (count : Nat) : Reader Nat := fun cs =>
  let digits := cs.take count
  if digits.length = count then (Decimal.readDigits? 16 digits).map (·, cs.drop count) else none

/-- The character that an escape stands for, after its backslash. -/
def escape : Reader Char
  | 'b' :: rest => some ('\x08', rest)
  | 't' :: rest => some ('\t', rest)
  | 'n' :: rest => some ('\n', rest)
  | 'f' :: rest => some ('\x0c', rest)
  | 'r' :: rest => some ('\r', rest)
  | 'e' :: rest => some ('\x1b', rest)
  | '"' :: rest => some ('"', rest)
  | '\\' :: rest => some ('\\', rest)
  | 'x' :: rest => (hexDigits 2 rest).bind fun (n, rest) => (charOf? n).map (·, rest)
  | 'u' :: rest => (hexDigits 4 rest).bind fun (n, rest) => (charOf? n).map (·, rest)
  | 'U' :: rest => (hexDigits 8 rest).bind fun (n, rest) => (charOf? n).map (·, rest)
  | _ => none

/-- A backslash at the end of a line: the blanks and line ends up to the next text are left out. -/
def lineEnding : Reader Unit := fun cs =>
  (newline (cs.dropWhile isSpace)).map fun (_, rest) =>
    ((), rest.dropWhile fun c => isSpace c || c = '\n' || c = '\r')

/-- One piece of a basic text, and the text that it stands for. In a text over several lines, line
ends stand for themselves. -/
def basicPiece (lines : Bool) : Reader (List Char) := fun cs =>
  match cs with
  | '\\' :: rest =>
    match escape rest with
    | some (c, rest) => some ([c], rest)
    -- the backslash may be the last of its line
    | none => if lines then (lineEnding rest).map fun (_, rest) => ([], rest) else none
  | '"' :: _ => none
  | c :: rest =>
    if isPlain c then some ([c], rest)
    else if lines then (newline cs).map fun (_, rest) => (['\n'], rest)
    else none
  | [] => none

/-- One piece of a literal text. -/
def literalPiece (lines : Bool) : Reader (List Char) := fun cs =>
  match cs with
  | '\'' :: _ => none
  | c :: rest =>
    if isPlain c then some ([c], rest)
    else if lines then (newline cs).map fun (_, rest) => (['\n'], rest)
    else none
  | [] => none

/-- A text in one quote, after the quote. -/
def shortText (quote : Char) (piece : Reader (List Char)) : Reader String := fun cs =>
  match Reader.many piece cs with
  | (pieces, c :: rest) => if c = quote then some (String.ofList pieces.flatten, rest) else none
  | _ => none

/-- The quotes at the end of a text in three quotes: of up to five, the last three close it. -/
def closingQuotes (quote : Char) (cs : List Char) : Option (Nat × List Char) :=
  let count := min 5 (cs.takeWhile (· = quote)).length
  if 3 ≤ count then some (count - 3, cs.drop count) else none

/-- A piece of a text in three quotes, or quotes that do not close it. -/
def longPiece (quote : Char) (piece : Reader (List Char)) : Reader (List Char) := fun cs =>
  match piece cs with
  | some r => some r
  | none =>
    match closingQuotes quote cs with
    -- quotes that do not close the text are part of it
    | some _ => none
    | none =>
      match cs.takeWhile (· = quote) with
      | [] => none
      | quotes => some (quotes, cs.dropWhile (· = quote))

/-- A text in three quotes, after the quotes. A line end right after them does not count. -/
def longText (quote : Char) (piece : Reader (List Char)) : Reader String := fun cs =>
  let start := ((newline cs).map Prod.snd).getD cs
  let (pieces, rest) := Reader.many (longPiece quote piece) start
  (closingQuotes quote rest).map fun (more, rest) =>
    (String.ofList (pieces.flatten ++ List.replicate more quote), rest)

/-- A text in one quote. -/
def shortTextOf : Reader String
  | '"' :: rest => shortText '"' (basicPiece false) rest
  | '\'' :: rest => shortText '\'' (literalPiece false) rest
  | _ => none

/-- A text. -/
def textOf : Reader String
  | '"' :: '"' :: '"' :: rest => longText '"' (basicPiece true) rest
  | '\'' :: '\'' :: '\'' :: rest => longText '\'' (literalPiece true) rest
  | cs => shortTextOf cs

/-! ## Numbers -/

/-- Digits with single underscores between them, without the underscores. -/
def joinedDigits? (base : Nat) (cs : List Char) : Option (List Char) :=
  let groups := cs.splitOn '_'
  if groups.all fun g => !g.isEmpty && g.all fun c => (Decimal.digitValue? base c).isSome then
    some groups.flatten
  else none

/-- Whether decimal digits start with a zero that is not the only digit. -/
def hasLeadingZero (digits : List Char) : Bool := digits.head? = some '0' && 2 ≤ digits.length

/-- The decimal digits of a whole part. -/
def wholeDigits? (cs : List Char) : Option (List Char) :=
  (joinedDigits? 10 cs).filter (!hasLeadingZero ·)

/-- A whole number that fits 64 bits. -/
def fitting? (n : Int) : Option Value :=
  if Word.isSigned 64 n then some (.int n) else none

/-- A whole number. -/
def int? (word : List Char) : Option Value :=
  let inBase (base : Nat) (cs : List Char) : Option Value := do
    let digits ← joinedDigits? base cs
    let n ← Decimal.readDigits? base digits
    fitting? n
  match word with
  | '0' :: 'x' :: rest => inBase 16 rest
  | '0' :: 'o' :: rest => inBase 8 rest
  | '0' :: 'b' :: rest => inBase 2 rest
  | _ =>
    let (negative, rest) := Decimal.takeSign word
    (wholeDigits? rest).bind fun digits =>
      fitting? (Binary64.signed negative (Decimal.digitsValue digits))

/-- The digits of a number in floating point without its sign, with the underscores left out. -/
def floatDigits? (cs : List Char) : Option (List Char) :=
  let isExponentMark (c : Char) : Bool := c = 'e' || c = 'E'
  let mantissa := cs.takeWhile (!isExponentMark ·)
  let exponent := cs.dropWhile (!isExponentMark ·)
  let whole := mantissa.takeWhile (· ≠ '.')
  let fraction := mantissa.dropWhile (· ≠ '.')
  do
    let whole ← wholeDigits? whole
    let fraction ← match fraction with
      | [] => some []
      | _ :: digits => (joinedDigits? 10 digits).map ('.' :: ·)
    let exponent ← match exponent with
      | [] => some []
      | mark :: '+' :: digits => (joinedDigits? 10 digits).map (mark :: ·)
      | mark :: '-' :: digits => (joinedDigits? 10 digits).map (mark :: '-' :: ·)
      | mark :: digits => (joinedDigits? 10 digits).map (mark :: ·)
    return whole ++ fraction ++ exponent

/-- A number in floating point. -/
def float? (word : List Char) : Option Value :=
  let (negative, rest) := Decimal.takeSign word
  let x? :=
    if rest = ['i', 'n', 'f'] then some (1 / 0)
    else if rest = ['n', 'a', 'n'] then some Binary64.nan
    else ((floatDigits? rest).bind Decimal.readUnsigned?).filter Float.isFinite
  x?.map fun x => .float (if negative then -x else x)

/-! ## Dates and times -/

/-- A number of a fixed count of decimal digits up to a bound. -/
def bounded (count low high : Nat) : Reader (List Char) := fun cs =>
  let digits := cs.take count
  if digits.length = count && digits.all Char.isDigit &&
      low ≤ Decimal.digitsValue digits && Decimal.digitsValue digits ≤ high then
    some (digits, cs.drop count)
  else none

/-- The number of days in a month. -/
def monthDays (year month : Nat) : Nat :=
  let leap := year % 4 = 0 && (year % 100 ≠ 0 || year % 400 = 0)
  if month = 2 then (if leap then 29 else 28)
  else if [4, 6, 9, 11].contains month then 30 else 31

/-- A date. -/
def date : Reader (List Char) := fun cs => do
  let (year, cs) ← bounded 4 0 9999 cs
  let (_, cs) ← Reader.word "-" cs
  let (month, cs) ← bounded 2 1 12 cs
  let (_, cs) ← Reader.word "-" cs
  let days := monthDays (Decimal.digitsValue year) (Decimal.digitsValue month)
  let (day, cs) ← bounded 2 1 days cs
  return (year ++ ['-'] ++ month ++ ['-'] ++ day, cs)

/-- A fraction of a second, without zeros at its end; digits after the ninth do not count. -/
def fraction : Reader (List Char)
  | '.' :: rest =>
    match rest.takeWhile Char.isDigit with
    | [] => none
    | digits =>
      let kept := ((digits.take 9).reverse.dropWhile (· = '0')).reverse
      some (if kept.isEmpty then [] else '.' :: kept, rest.dropWhile Char.isDigit)
  | cs => some ([], cs)

/-- A time of day; the seconds may be absent. -/
def time : Reader (List Char) := fun cs => do
  let (hour, cs) ← bounded 2 0 23 cs
  let (_, cs) ← Reader.word ":" cs
  let (minute, cs) ← bounded 2 0 59 cs
  match cs with
  | ':' :: cs =>
    let (second, cs) ← bounded 2 0 60 cs
    let (fraction, cs) ← fraction cs
    return (hour ++ [':'] ++ minute ++ [':'] ++ second ++ fraction, cs)
  | cs => return (hour ++ [':'] ++ minute, cs)

/-- An offset from universal time, or nothing. -/
def offset : Reader (List Char)
  | 'Z' :: rest | 'z' :: rest => some (['Z'], rest)
  | c :: cs =>
    if c = '+' || c = '-' then do
      let (hour, cs) ← bounded 2 0 23 cs
      let (_, cs) ← Reader.word ":" cs
      let (minute, cs) ← bounded 2 0 59 cs
      return (c :: hour ++ [':'] ++ minute, cs)
    else some ([], c :: cs)
  | [] => some ([], [])

/-- A date, a time, or both, in their standard form. -/
def moment? (word : List Char) : Option Value :=
  let whole := do
    match date word with
    | some (date, []) => return date
    | some (date, c :: rest) =>
      if c = 'T' || c = 't' || c = ' ' then do
        let (time, rest) ← time rest
        let (offset, rest) ← offset rest
        if rest.isEmpty then return date ++ ['T'] ++ time ++ offset else none
      else none
    | none => do
      let (time, rest) ← time word
      if rest.isEmpty then return time else none
  whole.map fun cs => .moment (String.ofList cs)

/-- The value of a word. -/
def word? (word : List Char) : Option Value :=
  if word = "true".toList then some (.bool true)
  else if word = "false".toList then some (.bool false)
  else (int? word).orElse fun _ => (float? word).orElse fun _ => moment? word

/-- Characters of words. -/
def isWordChar (c : Char) : Bool := c.isAlphanum || "+-_.:".toList.contains c

/-- The longest word; a date takes a time after one blank with it. -/
def takeWord (cs : List Char) : List Char × List Char :=
  let first := cs.takeWhile isWordChar
  match cs.dropWhile isWordChar with
  -- a blank may stand between a date and a time
  | ' ' :: rest =>
    match date first, rest with
    | some (_, []), c :: _ =>
      if c.isDigit then (first ++ [' '] ++ rest.takeWhile isWordChar, rest.dropWhile isWordChar)
      else (first, ' ' :: rest)
    | _, _ => (first, ' ' :: rest)
  | rest => (first, rest)

end ItemComposition.Toml
