import ItemComposition.Proto.Wire
import ItemComposition.Text.Bytes

/-!
# Tokens of schema sources

Words, numbers, quoted texts and single marks. Blanks and comments separate tokens and are left
out. A comment that opens inside a comment is no comment, and a number ends before a blank or a
mark.
-/

namespace ItemComposition.Proto

/-- A token of a schema source. -/
inductive Token where
  | word (name : String)
  | int (n : Nat)
  /-- A number with a point or an exponent; its value is not needed. -/
  | float
  | text (bytes : Bytes)
  | mark (c : Char)
  deriving DecidableEq

namespace Token

/-- Blanks between tokens. -/
def isSpace (c : Char) : Bool :=
  c = ' ' || c = '\t' || c = '\n' || c = '\r' || c = '\x0b' || c = '\x0c'

/-- First characters of a word. -/
def isWordStart (c : Char) : Bool := c.isAlpha || c = '_'

/-- Further characters of a word. -/
def isWordPart (c : Char) : Bool := c.isAlphanum || c = '_'

/-- Marks of one character. -/
def isMark (c : Char) : Bool := ".-()\x7b\x7d[]<>,:;=/+".toList.contains c

/-- The value of a digit in a base of at most sixteen. -/
def digitValue (c : Char) : Nat :=
  if c.isDigit then c.toNat - '0'.toNat
  else if 'a' ≤ c && c ≤ 'f' then c.toNat - 'a'.toNat + 10
  else c.toNat - 'A'.toNat + 10

/-- Digits of base sixteen. -/
def isHexDigit (c : Char) : Bool := c.isDigit || ('a' ≤ c && c ≤ 'f') || ('A' ≤ c && c ≤ 'F')

/-- Digits of base eight. -/
def isOctalDigit (c : Char) : Bool := '0' ≤ c && c ≤ '7'

/-- The number that digits stand for in a base. -/
def digitsValue (base : Nat) (ds : List Char) : Nat :=
  ds.foldl (fun n d => n * base + digitValue d) 0

/-! ## Comments -/

/-- How many characters of a block comment are left, up to and including its end. -/
def blockCommentLength (seen : Nat) : List Char → Option Nat
  | [] => none
  | c :: rest =>
    match c, rest with
    | '*', '/' :: _ => some (seen + 2)
    | '/', '*' :: _ => none
    | _, _ => blockCommentLength (seen + 1) rest

/-! ## Numbers -/

/-- How many characters an exponent has. -/
def exponentLength : List Char → Nat
  | e :: rest =>
    if e = 'e' || e = 'E' then
      let sign := match rest with
        | s :: _ => if s = '+' || s = '-' then 1 else 0
        | [] => 0
      let digits := ((rest.drop sign).takeWhile Char.isDigit).length
      if digits = 0 then 0 else 1 + sign + digits
    else 0
  | [] => 0

/-- A number that starts with a digit or with a point before a digit, and its length. -/
def number (cs : List Char) : Option (Token × Nat) :=
  let whole := cs.takeWhile Char.isDigit
  let after := cs.drop whole.length
  let result : Option (Token × Nat) :=
    match cs with
    | '0' :: x :: rest =>
      if x = 'x' || x = 'X' then
        let digits := rest.takeWhile isHexDigit
        if digits.isEmpty then none else some (.int (digitsValue 16 digits), 2 + digits.length)
      else decimal whole after
    | _ => decimal whole after
  match result with
  | none => none
  | some (t, size) =>
    match cs.drop size with
    -- a number does not run into a word
    | c :: _ => if isWordPart c then none else some (t, size)
    | [] => some (t, size)
where
  decimal (whole after : List Char) : Option (Token × Nat) :=
    let fraction := match after with
      | '.' :: rest => 1 + (rest.takeWhile Char.isDigit).length
      | _ => 0
    let more := fraction + exponentLength (after.drop fraction)
    if more ≠ 0 then some (.float, whole.length + more)
    else
      match whole with
      | ['0'] => some (.int 0, 1)
      -- a leading zero marks the octal base
      | '0' :: digits =>
        if digits.all isOctalDigit then some (.int (digitsValue 8 digits), whole.length) else none
      | _ => some (.int (digitsValue 10 whole), whole.length)

/-! ## Quoted texts -/

/-- The bytes of a character in UTF-8. -/
def charBytes (c : Char) : Bytes := Text.encode c.toString

/-- The character of a code point, unless it is none. -/
def codePoint? (n : Nat) : Option Bytes :=
  if n < 0xD800 || (0xDFFF < n && n < 0x110000) then some (charBytes (Char.ofNat n)) else none

/-- What the escape after a backslash stands for, and its length. -/
def escape : List Char → Option (Bytes × Nat)
  | [] => none
  | c :: rest =>
    let byte (n size : Nat) : Option (Bytes × Nat) :=
      if n < 256 then some ([UInt8.ofNat n], size) else none
    let point (count : Nat) : Option (Bytes × Nat) :=
      let digits := rest.take count
      if digits.length = count && digits.all isHexDigit then
        (codePoint? (digitsValue 16 digits)).map (·, 1 + count)
      else none
    match c with
    | 'a' => byte 7 1
    | 'b' => byte 8 1
    | 'f' => byte 12 1
    | 'n' => byte 10 1
    | 'r' => byte 13 1
    | 't' => byte 9 1
    | 'v' => byte 11 1
    | 'u' => point 4
    | 'U' => point 8
    | 'x' | 'X' =>
      let digits := (rest.take 2).takeWhile isHexDigit
      if digits.isEmpty then none else byte (digitsValue 16 digits) (1 + digits.length)
    | c =>
      if c = '\\' || c = '\'' || c = '"' || c = '?' then some (charBytes c, 1)
      else
        let digits := ((c :: rest).take 3).takeWhile isOctalDigit
        if digits.isEmpty then none else byte (digitsValue 8 digits) digits.length

/-- The bytes of a quoted text after its opening quote, and its length with the closing quote.
`skip` counts the characters that belong to an escape already read. -/
def quotedBody (quote : Char) (seen skip : Nat) (bytes : Bytes) :
    List Char → Option (Bytes × Nat)
  | [] => none
  | c :: rest =>
    match skip with
    | skip + 1 => quotedBody quote (seen + 1) skip bytes rest
    | 0 =>
      if c = quote then some (bytes, seen + 1)
      else if c = '\n' || c = '\x00' then none
      else if c = '\\' then
        match escape rest with
        | some (more, size) => quotedBody quote (seen + 1) size (bytes ++ more) rest
        | none => none
      else quotedBody quote (seen + 1) 0 (bytes ++ charBytes c) rest

/-! ## Tokens -/

/-- The token that starts with a character, unless a comment or blank does, and how many of the
characters after it belong to it. -/
def next (c : Char) (rest : List Char) : Option (Option Token × Nat) :=
  if isSpace c then some (none, 0)
  else if isWordStart c then
    let more := rest.takeWhile isWordPart
    some (some (.word (String.ofList (c :: more))), more.length)
  else if c.isDigit || (c = '.' && (rest.head?.any Char.isDigit)) then
    (number (c :: rest)).map fun (t, size) => (some t, size - 1)
  else if c = '"' || c = '\'' then
    (quotedBody c 0 0 [] rest).map fun (bytes, size) => (some (.text bytes), size)
  else
    match c, rest with
    | '/', '/' :: more => some (none, 1 + (more.takeWhile (· ≠ '\n')).length)
    | '/', '*' :: more => (blockCommentLength 1 more).map fun size => (none, size)
    | c, _ => if isMark c then some (some (.mark c), 0) else none

/-- The tokens of a source. -/
def ofChars? (cs : List Char) : Option (List Token) :=
  match cs with
  | [] => some []
  | c :: rest =>
    match next c rest with
    | none => none
    | some (token, more) => (ofChars? (rest.drop more)).map (token.toList ++ ·)
termination_by cs.length
decreasing_by simp only [List.length_cons, List.length_drop]; omega

end Token

end ItemComposition.Proto
