import ItemComposition.DataFormat
import ItemComposition.Decimal.Reader
import ItemComposition.Yaml.Node

/-!
# YAML: values

What scalars stand for by the core rules, documents as JSON values, and documents as records.

- A plain scalar is null, a truth value, a number or a text; a quoted one is a text.
- Numbers of more than 64 bits are refused up to 128 bits, and are doubles beyond.
- A mapping has texts as keys, whatever they would stand for as values, and of two entries with one
  key the later counts.
-/

namespace ItemComposition.Yaml

/-! ## Scalars -/

/-- Whether a text stands for null. -/
def isNull (s : String) : Bool := s = "null" || s = "Null" || s = "NULL" || s = "~"

/-- The truth value that a text stands for. -/
def readBool? (s : String) : Option Bool :=
  if s = "true" || s = "True" || s = "TRUE" then some true
  else if s = "false" || s = "False" || s = "FALSE" then some false
  else none

/-- Whether a text consists of several digits of which the first is zero, so that it is no
number. -/
def isPaddedDigits (cs : List Char) : Bool :=
  let ds := match cs with
    | c :: rest => if c = '-' || c = '+' then rest else cs
    | [] => []
  1 < ds.length && ds.head? = some '0' && ds.all Char.isDigit

/-- Digits with a mark of their base. -/
def readMarked? : List Char → Option Nat
  | '0' :: 'x' :: ds => Decimal.readDigits? 16 ds
  | '0' :: 'o' :: ds => Decimal.readDigits? 8 ds
  | '0' :: 'b' :: ds => Decimal.readDigits? 2 ds
  | _ => none

/-- The whole number that a text stands for, of any size. -/
def readInt? (cs : List Char) : Option Int :=
  let (negative, ds) := match cs with
    | '-' :: rest => (true, rest)
    | '+' :: rest => (false, rest)
    | cs => (false, cs)
  match readMarked? ds with
  | some n => some (Binary64.signed negative n)
  | none =>
    if isPaddedDigits cs then none else (Decimal.readDigits? 10 ds).map (Binary64.signed negative)

/-- The double that a text stands for. -/
def readFloat? (s : String) : Option Float :=
  let (negative, signed, body) := match s.toList with
    | '-' :: rest => (true, true, rest)
    | '+' :: rest => (false, true, rest)
    | cs => (false, false, cs)
  let word := String.ofList body
  if word = ".inf" || word = ".Inf" || word = ".INF" then
    some (if negative then -(1 / 0) else 1 / 0)
  -- no sign stands before the word for what is no number
  else if !signed && (word = ".nan" || word = ".NaN" || word = ".NAN") then some Binary64.nan
  else
    match (Decimal.readUnsigned? body).filter Float.isFinite with
    | some x => some (if negative then -x else x)
    | none => none

/-- A double as a value; there is none for infinities and not-a-number but null. -/
def ofFloat (x : Float) : Json := if x.isFinite then .num (.float x) else .null

/-- What a whole number stands for: a value, or nothing that can be held. None beyond 128 bits. -/
def ofInt? (n : Int) : Option (Option Json) :=
  if Number.fits n then some (some (.int n))
  else if Word.isSigned 128 n || Word.isUnsigned 128 n then some none
  else none

/-- What a plain scalar stands for. -/
def ofPlain (s : String) : Option Json :=
  if s = "" || isNull s then some .null
  else
    match readBool? s with
    | some b => some (.bool b)
    | none =>
      match (readInt? s.toList).bind ofInt? with
      | some v => v
      | none =>
        -- such a text would lose its zeros as a number
        if isPaddedDigits s.toList then some (.str s)
        else
          match readFloat? s with
          | some x => some (ofFloat x)
          | none => some (.str s)

/-- Tags of the core rules. -/
def coreTag (name : String) : String := "tag:yaml.org,2002:" ++ name

/-- Whether a tag is one that a document gives a meaning of its own. -/
def isCustom (tag : Option String) : Bool :=
  match tag with
  | some t => t.toList.head? = some '!'
  | none => false

/-- What a scalar stands for. -/
def ofScalar (text : String) (plain : Bool) (tag : Option String) : Option Json :=
  match tag with
  | none => if plain then ofPlain text else some (.str text)
  | some t =>
    if isCustom tag then none
    else if t = coreTag "bool" then (readBool? text).map Json.bool
    else if t = coreTag "int" then ((readInt? text.toList).bind ofInt?).join
    else if t = coreTag "float" then (readFloat? text).map ofFloat
    else if t = coreTag "null" then (if isNull text then some .null else none)
    else some (.str text)

/-! ## Documents -/

namespace Node

/-- The text of a scalar, whatever it stands for. -/
def text? : Node → Option String
  | .scalar text _ _ => some text
  | _ => none

mutual

/-- A document as a JSON value. -/
def toJson? : Node → Option Json
  | .scalar text plain tag => ofScalar text plain tag
  | .sequence tag items => if isCustom tag then none else (itemsToJson? items).map Json.arr
  | .mapping tag entries =>
    if isCustom tag then none else (entriesToJson? entries).map Json.object

/-- The items of a sequence as JSON values. -/
def itemsToJson? : List Node → Option (List Json)
  | [] => some []
  | n :: rest => do
    let v ← toJson? n
    let vs ← itemsToJson? rest
    return v :: vs

/-- The entries of a mapping as JSON members, in order. -/
def entriesToJson? : List (Node × Node) → Option (List (String × Json))
  | [] => some []
  | (k, n) :: rest => do
    let key ← k.text?
    let v ← toJson? n
    let vs ← entriesToJson? rest
    return (key, v) :: vs

end

/-- Whether nothing is written: an empty plain scalar. -/
def isBlank : Node → Bool
  | .scalar text plain _ => text = "" && plain
  | _ => false

/-- Whether a scalar stands for none. -/
def standsForNone : Node → Bool
  | .scalar text plain tag =>
    plain && match tag with
      | none => text = "" || isNull text
      | some t => t = coreTag "null" && isNull text
  | _ => false

/-- The entries of a mapping; where nothing is written there are none. -/
def entries? : Node → Option (List (String × Node))
  | .mapping _ entries => entries.mapM fun e => e.1.text?.map fun k => (k, e.2)
  | n => if n.isBlank then some [] else none

/-- The fields of a record; no field may be given twice. -/
def record? (names : List String) (n : Node) : Option (List (String × Node)) := do
  let entries ← n.entries?
  let known := entries.filter fun e => names.contains e.1
  if (known.map Prod.fst).Nodup then some known else none

/-- A truth value. -/
def bool? : Node → Option Bool
  | .scalar text plain tag =>
    if (plain && tag.isNone) || tag = some (coreTag "bool") then readBool? text else none
  | _ => none

/-- A whole number below a bound. -/
def nat? (bound : Nat) (n : Node) : Option Nat :=
  match n.toJson? with
  | some v => DataFormat.jsonNat? bound v
  | none => none

/-- YAML documents. -/
def format : DataFormat Node where
  text? := text?
  bool? := bool?
  nat? := nat?
  float? := fun n => (n.toJson?.bind Json.num?).map Number.toFloat
  variant? := text?
  list? := fun n =>
    match n with
    | .sequence _ items => some items
    | n => if n.isBlank then some [] else none
  entries? := entries?
  record? := record?
  optional? := fun n => some (if n.standsForNone then none else some n)
  value? := toJson?

end Node

end ItemComposition.Yaml
