import ItemComposition.Decimal.Text
import ItemComposition.Dict
import ItemComposition.Word

/-!
# JSON values

Objects are dictionaries with sorted keys. A number is a whole number or a double: text without
fraction and exponent that fits 64 bits reads as a whole number, all else as a double, and the
two kinds stay apart in printing and in structural equality.
-/

namespace ItemComposition

/-- A JSON number: a whole number from `-2 ^ 63` to `2 ^ 64 - 1`, or a finite double. -/
inductive Number where
  | int (n : Int)
  | float (x : Float)
  deriving DecidableEq, Inhabited

namespace Number

/-- The value as a double. -/
def toFloat : Number → Float
  | .int n => Binary64.ofInt n
  | .float x => x

/-- Whole numbers that a number may hold. -/
def fits (n : Int) : Bool := Word.isSigned 64 n || Word.isUnsigned 64 n

/-- Equality of two numbers of one kind; a whole number never equals a double. -/
def same : Number → Number → Bool
  | .int a, .int b => a = b
  | .float a, .float b => a == b
  | _, _ => false

/-- The number as written in JSON text. -/
def text : Number → String
  | .int n => Decimal.intText n
  | .float x => Decimal.Style.json.float x

/-- The whole number, if the number is written as one and lies in the signed 64-bit range. -/
def toInt64? : Number → Option Int
  | .int n => if n ≤ Word.greatest 64 then some n else none
  | .float _ => none

end Number

/-- A JSON value. -/
inductive Json where
  | null
  | bool (b : Bool)
  | num (n : Number)
  | str (s : String)
  | arr (items : List Json)
  | obj (members : List (String × Json))
  deriving Inhabited

namespace Json

/-- The six kinds of value. -/
inductive Kind where
  | null
  | bool
  | number
  | string
  | array
  | object
  deriving DecidableEq, Repr

/-- The name of a kind in messages. -/
def Kind.name : Kind → String
  | .null => "null"
  | .bool => "bool"
  | .number => "number"
  | .string => "string"
  | .array => "array"
  | .object => "object"

/-- The kind of a value. -/
def kind : Json → Kind
  | .null => .null
  | .bool _ => .bool
  | .num _ => .number
  | .str _ => .string
  | .arr _ => .array
  | .obj _ => .object

/-- A whole number. -/
def int (n : Int) : Json := .num (.int n)

/-- An object from members in any order: of two with one key the later stays. -/
def object (members : List (String × Json)) : Json := .obj (Dict.ofList members)

/-- The empty object. -/
def emptyObject : Json := .obj []

/-- The member of an object; none for other values. -/
def get? : Json → String → Option Json
  | .obj members, key => Dict.get? members key
  | _, _ => none

/-- The text of a string. -/
def str? : Json → Option String
  | .str s => some s
  | _ => none

/-- The truth value of a boolean. -/
def bool? : Json → Option Bool
  | .bool b => some b
  | _ => none

/-- The elements of an array. -/
def arr? : Json → Option (List Json)
  | .arr items => some items
  | _ => none

/-- The members of an object. -/
def obj? : Json → Option (Dict Json)
  | .obj members => some members
  | _ => none

/-- The number of a number. -/
def num? : Json → Option Number
  | .num n => some n
  | _ => none

/-- Whether the value is null. -/
def isNull : Json → Bool
  | .null => true
  | _ => false

mutual

/-- Structural equality: numbers of different kinds differ at every depth. -/
def same : Json → Json → Bool
  | .null, .null => true
  | .bool a, .bool b => a = b
  | .num a, .num b => a.same b
  | .str a, .str b => a = b
  | .arr a, .arr b => sameItems a b
  | .obj a, .obj b => sameMembers a b
  | _, _ => false

/-- Structural equality of two lists of elements. -/
def sameItems : List Json → List Json → Bool
  | [], [] => true
  | a :: as, b :: bs => same a b && sameItems as bs
  | _, _ => false

/-- Structural equality of two lists of members. -/
def sameMembers : List (String × Json) → List (String × Json) → Bool
  | [], [] => true
  | (k, a) :: as, (l, b) :: bs => k = l && same a b && sameMembers as bs
  | _, _ => false

end

instance : BEq Json := ⟨same⟩

end Json

end ItemComposition
