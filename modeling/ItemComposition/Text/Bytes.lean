/-!
# Bytes as text

A text is written in UTF-8; not all bytes are a text.

In Base64 any bytes are a text, three bytes to four characters of 64. Written text uses `+` and `/`
and is padded with `=` to a multiple of four; read text may leave the padding out, may use `-` and
`_` instead, and may have bits that no byte needs.
-/

namespace ItemComposition.Text

/-- The text that bytes stand for. -/
def decode? (bytes : List UInt8) : Option String := String.fromUTF8? ⟨bytes.toArray⟩

/-- The bytes of a text. -/
def encode (s : String) : List UInt8 := s.toUTF8.toList

namespace Base64

/-- The character of a number below 64. -/
def symbol (n : Nat) : Char :=
  if n < 26 then Char.ofNat ('A'.toNat + n)
  else if n < 52 then Char.ofNat ('a'.toNat + (n - 26))
  else if n < 62 then Char.ofNat ('0'.toNat + (n - 52))
  else if n = 62 then '+' else '/'

/-- The number of a character; `url` chooses between the two alphabets. -/
def value? (url : Bool) (c : Char) : Option Nat :=
  if 'A' ≤ c && c ≤ 'Z' then some (c.toNat - 'A'.toNat)
  else if 'a' ≤ c && c ≤ 'z' then some (c.toNat - 'a'.toNat + 26)
  else if c.isDigit then some (c.toNat - '0'.toNat + 52)
  else if c = (if url then '-' else '+') then some 62
  else if c = (if url then '_' else '/') then some 63
  else none

/-- Bytes as characters. -/
def encode : List UInt8 → List Char
  | a :: b :: c :: rest =>
    let n := a.toNat * 65536 + b.toNat * 256 + c.toNat
    symbol (n / 262144) :: symbol (n / 4096 % 64) :: symbol (n / 64 % 64) :: symbol (n % 64)
      :: encode rest
  -- the bytes that are left over are filled up with zero bits
  | [a, b] =>
    let n := a.toNat * 1024 + b.toNat * 4
    [symbol (n / 4096), symbol (n / 64 % 64), symbol (n % 64), '=']
  | [a] =>
    let n := a.toNat * 16
    [symbol (n / 64), symbol (n % 64), '=', '=']
  | [] => []

/-- The bytes of numbers below 64. A single number left over stands for nothing. -/
def bytes? : List Nat → Option (List UInt8)
  | a :: b :: c :: d :: rest =>
    let n := a * 262144 + b * 4096 + c * 64 + d
    (bytes? rest).map fun more =>
      UInt8.ofNat (n / 65536) :: UInt8.ofNat (n / 256) :: UInt8.ofNat n :: more
  | [a, b, c] =>
    let n := a * 4096 + b * 64 + c
    some [UInt8.ofNat (n / 1024), UInt8.ofNat (n / 4)]
  | [a, b] => some [UInt8.ofNat ((a * 64 + b) / 16)]
  | [_] => none
  | [] => some []

/-- Characters as bytes. Padding may only fill up the last four characters. -/
def decode? (cs : List Char) : Option (List UInt8) :=
  let symbols := cs.takeWhile (· ≠ '=')
  let padding := cs.drop symbols.length
  let url := cs.any fun c => c = '-' || c = '_'
  let fits := padding.isEmpty
    || (padding.all (· = '=') && 2 ≤ symbols.length % 4 && symbols.length % 4 + padding.length ≤ 4)
  if fits then (symbols.mapM (value? url)).bind bytes? else none

end Base64

end ItemComposition.Text
