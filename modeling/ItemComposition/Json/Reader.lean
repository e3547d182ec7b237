import ItemComposition.Json.Basic
import ItemComposition.Parsed

/-!
# Reading JSON text

`Json.read?` accepts one value between blanks. Arrays and objects nest at most 127 deep. Of two
members with one key the later stays.

A number without fraction and exponent that fits 64 bits is a whole number. Any other number is a
double: the leading digits that fit 64 bits are converted first and then scaled by one power of
ten, so that long inputs may differ from the nearest double in the last place.
-/

namespace ItemComposition.Json

/-- Blanks between the tokens of JSON text. -/
def isBlank (c : Char) : Bool := c = ' ' || c = '\n' || c = '\t' || c = '\r'

/-- The input without leading blanks. -/
def skipBlanks (cs : List Char) : List Char := cs.dropWhile isBlank

theorem length_skipBlanks_le (cs : List Char) : (skipBlanks cs).length ≤ cs.length :=
  length_dropWhile_le _ _

/-! ## Numbers -/

/-- The value of a decimal digit. -/
def digitValue (c : Char) : Nat := c.toNat - '0'.toNat

/-- Appends digits to a significand while it fits 64 bits; gives the significand, the number of
digits taken and the number of digits left over. -/
def takeDigits (significand : Nat) (taken : Nat) : List Char → Nat × Nat × Nat
  | [] => (significand, taken, 0)
  | c :: rest =>
    let next := significand * 10 + digitValue c
    if next < Word.size 64 then takeDigits next (taken + 1) rest
    else (significand, taken, rest.length + 1)

/-- Scales a double by a power of ten, in steps of `10 ^ 308`; none if the result is too large. -/
def scale? (x : Float) (e : Int) : Option Float :=
  if x == 0 then some x
  -- what is not zero is at least one, so the result would be infinite
  else if 308 < e then none
  else if -308 ≤ e then
    if 0 ≤ e then
      let y := x * Float.ofScientific 1 false e.toNat
      if y.isInf then none else some y
    else some (x / Float.ofScientific 1 false (-e).toNat)
  -- a divisor beyond the range of a double is applied in parts
  else scale? (x / 1e308) (e + 308)
termination_by (-e).toNat

/-- The number with the given integer digits, fraction digits and exponent; none if it is too
large for a double. -/
def number? (negative : Bool) (whole : List Char) (fraction : Option (List Char))
    (exponent : Option Int) : Option Number :=
  let (significand, _, dropped) := takeDigits 0 0 whole
  if fraction.isNone && exponent.isNone && dropped = 0 then
    -- minus zero and what lies below the range of a word are not whole numbers
    if negative then
      if 0 < significand && significand ≤ Word.size 63 then some (.int (-(significand : Int)))
      else some (.float (-(Float.ofNat significand)))
    else some (.int significand)
  else
    let (significand, taken, _) := takeDigits significand 0 (fraction.getD [])
    let base := Float.ofNat significand
    let e := (dropped : Int) - taken + exponent.getD 0
    match scale? base e with
    | some x => some (.float (if negative then -x else x))
    | none => none

/-- The value of an exponent's digits, held below a bound that decides every scaling. -/
def exponentValue (digits : List Char) : Nat :=
  digits.foldl (fun n c => min (n * 10 + digitValue c) 2147483647) 0

/-- The digits at the start of the input and what follows them. -/
def spanDigits (cs : List Char) : List Char × List Char :=
  (cs.takeWhile Char.isDigit, cs.dropWhile Char.isDigit)

/-- An exponent part, if one starts here: `none` if it has no digits. -/
def exponentPart (cs : List Char) : Option (Option Int × List Char) :=
  match cs with
  | c :: rest =>
    if c = 'e' || c = 'E' then
      let (negative, rest) := match rest with
        | '+' :: r => (false, r)
        | '-' :: r => (true, r)
        | r => (false, r)
      match spanDigits rest with
      | ([], _) => none
      | (digits, rest) =>
        let n : Int := exponentValue digits
        some (some (if negative then -n else n), rest)
    else some (none, cs)
  | [] => some (none, [])

/-- A fraction part, if one starts here: `none` if it has no digits. -/
def fractionPart (cs : List Char) : Option (Option (List Char) × List Char) :=
  match cs with
  | '.' :: rest =>
    match spanDigits rest with
    | ([], _) => none
    | (digits, rest) => some (some digits, rest)
  | cs => some (none, cs)

/-- A number without its sign: no leading zero before another digit. -/
def numberPart (negative : Bool) (cs : List Char) : Option (Number × List Char) :=
  match spanDigits cs with
  | ([], _) => none
  -- no zero may stand before another digit
  | ('0' :: _ :: _, _) => none
  | (whole, rest) =>
    match fractionPart rest with
    | none => none
    | some (fraction, rest) =>
      match exponentPart rest with
      | none => none
      | some (exponent, rest) => (number? negative whole fraction exponent).map (·, rest)

/-! ## Strings -/

/-- The value of a hexadecimal digit. -/
def hexValue? (c : Char) : Option Nat :=
  if c.isDigit then some (c.toNat - '0'.toNat)
  else if 'a' ≤ c && c ≤ 'f' then some (c.toNat - 'a'.toNat + 10)
  else if 'A' ≤ c && c ≤ 'F' then some (c.toNat - 'A'.toNat + 10)
  else none

/-- Four hexadecimal digits as a number. -/
def hex4? (a b c d : Char) : Option Nat :=
  match hexValue? a, hexValue? b, hexValue? c, hexValue? d with
  | some a, some b, some c, some d => some (((a * 16 + b) * 16 + c) * 16 + d)
  | _, _, _, _ => none

/-- The character of a pair of surrogate halves. -/
def joinSurrogates (high low : Nat) : Char :=
  Char.ofNat (0x10000 + (high - 0xD800) * 0x400 + (low - 0xDC00))

/-- The rest of a string literal after its opening quote: the text, reversed onto `acc`, and what
follows the closing quote. Lone surrogate halves and bare controls are refused. -/
def stringTail (acc : List Char) : List Char → Option (List Char × List Char)
  | [] => none
  | '"' :: rest => some (acc.reverse, rest)
  | '\\' :: 'u' :: a :: b :: c :: d :: rest =>
    match hex4? a b c d with
    | none => none
    | some n =>
      -- half of a surrogate pair: the other half has to follow
      if 0xD800 ≤ n && n < 0xDC00 then
        match rest with
        | '\\' :: 'u' :: a :: b :: c :: d :: rest =>
          match hex4? a b c d with
          | none => none
          | some m =>
            if 0xDC00 ≤ m && m < 0xE000 then stringTail (joinSurrogates n m :: acc) rest else none
        | _ => none
      else if 0xDC00 ≤ n && n < 0xE000 then none
      else stringTail (Char.ofNat n :: acc) rest
  | '\\' :: c :: rest =>
    match c with
    | '"' => stringTail ('"' :: acc) rest
    | '\\' => stringTail ('\\' :: acc) rest
    | '/' => stringTail ('/' :: acc) rest
    | 'b' => stringTail ('\x08' :: acc) rest
    | 'f' => stringTail ('\x0c' :: acc) rest
    | 'n' => stringTail ('\n' :: acc) rest
    | 'r' => stringTail ('\r' :: acc) rest
    | 't' => stringTail ('\t' :: acc) rest
    | _ => none
  | c :: rest => if c.toNat < 0x20 then none else stringTail (c :: acc) rest

/-! ## Values -/

/-- A result whose rest is checked to be shorter than the input. -/
def shorter? {α : Type} (input : List Char) (r : Option (α × List Char)) :
    Option (Parsed input α) :=
  match r with
  | some (value, rest) =>
    if h : rest.length < input.length then some ⟨value, rest, h⟩ else none
  | none => none

/-- Reads the items of a sequence up to the closing character, at least one item, with commas
between them. -/
def itemsUpTo {α : Type} (close : Char) (item : (input : List Char) → Option (Parsed input α))
    (input : List Char) : Option (Parsed input (List α)) :=
  match item input with
  | none => none
  | some p =>
    match h : skipBlanks p.rest with
    | [] => none
    | c :: rest =>
      have short : rest.length < input.length := by
        have h1 := length_skipBlanks_le p.rest
        have h2 := p.shorter
        simp only [h, List.length_cons] at h1
        omega
      if c = close then some ⟨[p.value], rest, short⟩
      else if c = ',' then
        match itemsUpTo close item rest with
        | none => none
        | some q => some ⟨p.value :: q.value, q.rest, Nat.lt_trans q.shorter short⟩
      else none
termination_by input.length

/-- The items of a possibly empty sequence after its opening character. -/
def sequence {α : Type} (close : Char) (item : (input : List Char) → Option (Parsed input α))
    (input : List Char) : Option (Parsed input (List α)) :=
  match h : skipBlanks input with
  | [] => none
  | c :: rest =>
    if c = close then
      some ⟨[], rest, by have := length_skipBlanks_le input; simp only [h, List.length_cons] at this
                         omega⟩
    else itemsUpTo close item input

/-- A member of an object: a string, a colon and a value. -/
def member (value : (input : List Char) → Option (Parsed input Json)) (input : List Char) :
    Option (Parsed input (String × Json)) :=
  match skipBlanks input with
  | '"' :: cs =>
    match stringTail [] cs with
    | none => none
    | some (key, rest) =>
      match skipBlanks rest with
      | ':' :: rest =>
        match value rest with
        | none => none
        | some p => shorter? input (some ((String.ofList key, p.value), p.rest))
      | _ => none
  | _ => none

/-- A value inside at most `depth` further arrays and objects. -/
def value (depth : Nat) (input : List Char) : Option (Parsed input Json) :=
  match skipBlanks input with
  | 'n' :: 'u' :: 'l' :: 'l' :: rest => shorter? input (some (.null, rest))
  | 't' :: 'r' :: 'u' :: 'e' :: rest => shorter? input (some (.bool true, rest))
  | 'f' :: 'a' :: 'l' :: 's' :: 'e' :: rest => shorter? input (some (.bool false, rest))
  | '"' :: rest =>
    shorter? input ((stringTail [] rest).map fun r => (.str (String.ofList r.1), r.2))
  | '-' :: rest => shorter? input ((numberPart true rest).map fun r => (.num r.1, r.2))
  | '[' :: rest =>
    match depth with
    | 0 => none
    | depth + 1 =>
      match sequence ']' (value depth) rest with
      | none => none
      | some p => shorter? input (some (.arr p.value, p.rest))
  | '\x7b' :: rest =>
    match depth with
    | 0 => none
    | depth + 1 =>
      match sequence '\x7d' (member (value depth)) rest with
      | none => none
      | some p => shorter? input (some (.object p.value, p.rest))
  | rest => shorter? input ((numberPart false rest).map fun r => (.num r.1, r.2))

/-- How deep arrays and objects may nest. -/
def maxDepth : Nat := 127

/-- Reads a text that holds one value between blanks. -/
def read? (text : String) : Option Json :=
  match value maxDepth text.toList with
  | none => none
  | some p => if (skipBlanks p.rest).isEmpty then some p.value else none

end ItemComposition.Json
