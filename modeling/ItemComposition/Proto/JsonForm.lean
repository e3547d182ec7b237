import ItemComposition.Decimal.Reader
import ItemComposition.Json.Basic
import ItemComposition.Proto.Message
import ItemComposition.Proto.WellKnown
import ItemComposition.Text.Bytes
import ItemComposition.Time.Calendar

/-!
# Messages as JSON

`Message.ofJson?` builds a message from a JSON value and `Message.toJson?` writes it as one.

- A field may be named by its JSON name or by its name in the schema. Null leaves it unset.
- Numbers may be written as texts, and whole numbers as doubles without fraction. Bytes are
  written in base 64, values of enumerations by name or number.
- Written objects hold the fields that are present, under their JSON names. A number that is not
  finite is written as a text, a whole number of 64 bits as a number.
- Times, durations, wrapped values, field masks and values of any shape have forms of their own.
-/

namespace ItemComposition.Proto

/-! ## Texts of single values -/

/-- Numbers of a type. -/
def inRange (t : ScalarType) (n : Int) : Bool :=
  match t with
  | .int32 | .sint32 | .sfixed32 => Word.isSigned 32 n
  | .int64 | .sint64 | .sfixed64 => Word.isSigned 64 n
  | .uint32 | .fixed32 => Word.isUnsigned 32 n
  | _ => Word.isUnsigned 64 n

/-- A whole number of a type in JSON. -/
def intOf? (t : ScalarType) : Json → Option Int
  | .num (.int n) => if inRange t n then some n else none
  | .num (.float x) => (Binary64.toInt? x).filter (inRange t)
  | .str s => (Decimal.readInt? 10 s.toList).filter (inRange t)
  | _ => none

/-- The text of a number, with the names of numbers that are not finite. -/
def readReal? (s : String) : Option Float :=
  if s = "Infinity" then some (1 / 0)
  else if s = "-Infinity" then some (-(1 / 0))
  else if s = "NaN" then some Binary64.nan
  else Decimal.readFloat? s.toList

/-- The largest finite number of 32 bits. -/
def maxSingle : Float := (Float32.ofBits 0x7f7fffff).toFloat

/-- A number of a type in JSON; one of 32 bits is rounded, and must not be too large. -/
def realOf? (t : ScalarType) (v : Json) : Option Float :=
  let narrow (x : Float) : Float := if t = .float then x.toFloat32.toFloat else x
  match v with
  | .num n =>
    let x := n.toFloat
    if t = .float && maxSingle < x.abs then none else some (narrow x)
  | .str s => (readReal? s).map narrow
  | _ => none

/-- A scalar value in JSON. -/
def scalarOf? (t : ScalarType) (v : Json) : Option Value :=
  match t, v with
  | .bool, .bool b => some (.bool b)
  | .bool, _ => none
  | .string, .str s => some (.text s)
  | .string, _ => none
  | .bytes, .str s => (Text.Base64.decode? s.toList).map Value.bytes
  | .bytes, _ => none
  | .double, v => (realOf? .double v).map Value.real
  | .float, v => (realOf? .float v).map Value.real
  | t, v => (intOf? t v).map Value.int

/-- The number of an enumeration's value in JSON. -/
def enumOf? (pool : Pool) (name : String) : Json → Option Int
  | .str s => ((pool.values name).find? fun v => v.1 = s).map Prod.snd
  | .num (.int n) => if inRange .int32 n then some n else none
  | _ => none

/-- A key of a map in JSON. -/
def keyOf? (t : ScalarType) (key : String) : Option MapKey :=
  match t with
  | .string => some (.text key)
  | .bool =>
    if key = "true" then some (.bool true) else if key = "false" then some (.bool false) else none
  | t => ((Decimal.readInt? 10 key.toList).filter (inRange t)).map MapKey.int

/-! ## Times and durations -/

/-- A message of seconds and nanoseconds. -/
def secondsMessage (seconds nanos : Int) : Message :=
  [(1, .single (.int seconds)), (2, .single (.int nanos))]

/-- The whole number that a field holds. -/
def intField (m : Message) (number : Nat) : Int :=
  match m.get? number with
  | some (.single (.int n)) => n
  | _ => 0

/-- A time in JSON: a date that may be followed by a time of day and an offset. -/
def timestampOf? (s : String) : Option Message :=
  ([s, s ++ "Z", s ++ "T00:00:00Z"].findSome? Instant.read?).map fun t =>
    secondsMessage t.seconds (min t.nanos 999999999)

/-- The nanoseconds after a point, in as many groups of three digits as they need. -/
def fractionText (nanos : Nat) : String :=
  if nanos = 0 then ""
  else if nanos % TimeUnit.millisecond.nanos = 0 then
    "." ++ CivilTime.padded '0' 3 (nanos / TimeUnit.millisecond.nanos)
  else if nanos % TimeUnit.microsecond.nanos = 0 then
    "." ++ CivilTime.padded '0' 6 (nanos / TimeUnit.microsecond.nanos)
  else "." ++ CivilTime.padded '0' 9 nanos

/-- The text of a time. -/
def timestampText? (m : Message) : Option String :=
  let total := intField m 1 * TimeUnit.second.nanos + intField m 2
  (CivilTime.ofSeconds? (total / TimeUnit.second.nanos) (total % TimeUnit.second.nanos).toNat none).map fun t =>
    let part (n : Nat) : String := CivilTime.padded '0' 2 n
    CivilTime.padded '0' 4 t.year ++ "-" ++ part t.month ++ "-" ++ part t.day ++ "T"
      ++ part (t.second / 3600) ++ ":" ++ part (t.second / 60 % 60) ++ ":" ++ part (t.second % 60)
      ++ fractionText t.nanos ++ "Z"

/-- A duration in JSON: seconds with an optional sign and fraction, and an `s`. -/
def durationOf? (s : String) : Option Message :=
  let (negative, body) := match s.toList with
    | '-' :: rest => (true, rest)
    | cs => (false, cs)
  let whole := body.takeWhile Char.isDigit
  let (fraction, rest) := match body.drop whole.length with
    | '.' :: rest => (rest.takeWhile Char.isDigit, rest.dropWhile Char.isDigit)
    | rest => ([], rest)
  -- more than nine digits would go below a nanosecond
  if whole.isEmpty || 9 < fraction.length || rest ≠ ['s'] then none
  else
    let seconds := Decimal.digitsValue whole
    let nanos := Decimal.digitsValue fraction * Nat.pow 10 (9 - fraction.length)
    if seconds < Word.size 63 then
      some (secondsMessage (Binary64.signed negative seconds) (Binary64.signed negative nanos))
    else none

/-- The text of a duration. -/
def durationText (m : Message) : String :=
  let total := intField m 1 * TimeUnit.second.nanos + intField m 2
  let size := total.natAbs
  (if total < 0 then "-" else "") ++ Decimal.intText (size / TimeUnit.second.nanos : Nat)
    ++ fractionText (size % TimeUnit.second.nanos) ++ "s"

/-! ## Field masks -/

/-- A path with capitals instead of underscores, as a path with underscores. -/
def snakeCase (s : String) : String :=
  String.ofList (s.toList.flatMap fun c => if c.isUpper then ['_', c.toLower] else [c])

/-- A field mask in JSON. -/
def fieldMaskOf (s : String) : Message :=
  let paths := if s = "" then [] else s.splitOn ","
  [(1, .list (paths.map fun p => .text (snakeCase p)))]

/-- The text of a field mask. -/
def fieldMaskText (m : Message) : String :=
  match m.get? 1 with
  | some (.list paths) =>
    ",".intercalate (paths.filterMap fun
      | .text s => some (camelCase s)
      | _ => none)
  | _ => ""

/-! ## Reading -/

/-- The message of the value that stands for null. -/
def nullMessage : Message := [(1, .single (.int 0))]

mutual

/-- A value of any shape as a message. -/
def anyShape : Json → Message
  | .null => nullMessage
  | .num n => [(2, .single (.real n.toFloat))]
  | .str s => [(3, .single (.text s))]
  | .bool b => [(4, .single (.bool b))]
  | .obj members => [(5, .single (.message [(1, .map (shapeMembers members))]))]
  | .arr items => [(6, .single (.message [(1, .list (shapeItems items))]))]

/-- Values of any shape in a list. -/
def shapeItems : List Json → List Value
  | [] => []
  | v :: rest => .message (anyShape v) :: shapeItems rest

/-- Values of any shape under keys. -/
def shapeMembers : List (String × Json) → List (MapKey × Value)
  | [] => []
  | (k, v) :: rest => (.text k, .message (anyShape v)) :: shapeMembers rest

end

/-- What a message with a form of its own holds. -/
def specialOf? (special : WellKnown.Special) (v : Json) : Option Message :=
  match special, v with
  | .timestamp, .str s => timestampOf? s
  | .duration, .str s => durationOf? s
  | .wrapper t, v => (scalarOf? t v).map fun x => [(1, .single x)]
  | .fieldMask, .str s => some (fieldMaskOf s)
  | .struct, .obj members => some [(1, .map (shapeMembers members))]
  | .list, .arr items => some [(1, .list (shapeItems items))]
  | .value, v => some (anyShape v)
  | _, _ => none

/-- What null stands for in a field, if it does not leave the field unset. -/
def nullContent? : FieldForm → Option Content
  | .single (.message name) _ _ =>
    match WellKnown.special? name with
    | some .value => some (.single (.message nullMessage))
    | _ => none
  | .single (.enumeration name) _ _ =>
    if name = WellKnown.nullName then some (.single (.int 0)) else none
  | _ => none

/-- The field that a key in JSON names. -/
def fieldOf? (fields : List Field) (key : String) : Option Field :=
  (fields.find? fun f => f.jsonName = key).or (fields.find? fun f => f.name = key)

/-- Sets a field, unless one of its group is set already. -/
def putField? (fields : List Field) (m : Message) (f : Field) (c : Content) : Option Message :=
  let taken (number : Nat) : Bool := m.any fun e => e.1 = number
  let clash := match f.form with
    | .single _ _ (some _) => taken f.number || (rivals fields f).any taken
    | _ => false
  if clash then none else some (m.set f.number c)

/-- A value that is no object in JSON. -/
def leafOf? (pool : Pool) (type : ValueType) (v : Json) : Option Value :=
  match type with
  | .scalar t => scalarOf? t v
  | .enumeration name => (enumOf? pool name v).map Value.int
  | .message name =>
    (WellKnown.special? name).bind fun special => (specialOf? special v).map Value.message

mutual

/-- A value of a type in JSON. -/
def valueOf? (pool : Pool) (type : ValueType) : Json → Option Value
  | .obj members =>
    match type with
    | .message name =>
      match WellKnown.special? name with
      | some special => (specialOf? special (.obj members)).map Value.message
      | none => (membersOf? pool (pool.fields name) [] members).map Value.message
    | _ => none
  | v => leafOf? pool type v

/-- The fields of a message in JSON, on top of those that it has. -/
def membersOf? (pool : Pool) (fields : List Field) (m : Message) :
    List (String × Json) → Option Message
  | [] => some m
  | (key, v) :: rest =>
    match fieldOf? fields key with
    | none => none
    | some f =>
      let content : Option (Option Content) :=
        -- null leaves most fields out
        if v.isNull then some (nullContent? f.form)
        else
          match f.form with
          | .single type _ _ => (valueOf? pool type v).map fun x => some (.single x)
          | .list type _ =>
            match v with
            | .arr items => (itemsOf? pool type items).map fun xs => some (.list xs)
            | _ => none
          | .map key type =>
            match v with
            | .obj entries => (entriesOf? pool key type [] entries).map fun xs => some (.map xs)
            | _ => none
      match content with
      | none => none
      | some none => membersOf? pool fields m rest
      | some (some c) =>
        match putField? fields m f c with
        | none => none
        | some m => membersOf? pool fields m rest

/-- The elements of a list in JSON. -/
def itemsOf? (pool : Pool) (type : ValueType) : List Json → Option (List Value)
  | [] => some []
  | v :: rest =>
    match valueOf? pool type v, itemsOf? pool type rest with
    | some x, some xs => some (x :: xs)
    | _, _ => none

/-- The entries of a map in JSON, after those that are there. -/
def entriesOf? (pool : Pool) (key : ScalarType) (type : ValueType)
    (entries : List (MapKey × Value)) : List (String × Json) → Option (List (MapKey × Value))
  | [] => some entries
  | (k, v) :: rest =>
    match keyOf? key k, valueOf? pool type v with
    | some k, some x => entriesOf? pool key type (putEntry entries k x) rest
    | _, _ => none

end

/-- Builds a message from a JSON value. -/
def Message.ofJson? (pool : Pool) (name : String) (v : Json) : Option Message :=
  match valueOf? pool (.message name) v with
  | some (.message m) => some m
  | _ => none

/-! ## Writing -/

/-- The JSON form of a whole number or a value of an enumeration. -/
def intJson (pool : Pool) (type : ValueType) (n : Int) : Json :=
  match type with
  | .enumeration name =>
    if name = WellKnown.nullName then .null
    else
      match (pool.values name).find? fun v => v.2 = n with
      | some v => .str v.1
      | none => .int n
  | _ => .int n

/-- The JSON form of a number. -/
def realJson (x : Float) : Json :=
  if x.isFinite then .num (.float x)
  else if x.isNaN then .str "NaN"
  else .str (if 0 < x then "Infinity" else "-Infinity")

/-- The text of a key. -/
def MapKey.keyText : MapKey → String
  | .int n => Decimal.intText n
  | .bool b => if b then "true" else "false"
  | .text s => s

/-- The JSON form of a type's default. -/
def valueDefault : ScalarType → Option Json
  | .bool => some (.bool false)
  | .string | .bytes => some (.str "")
  | .double | .float => some (.num (.float 0))
  | _ => some (.int 0)

mutual

/-- The JSON form of a value; none if it has none. -/
def valueJson? (pool : Pool) (type : ValueType) : Value → Option Json
  | .int n => some (intJson pool type n)
  | .real x => some (realJson x)
  | .bool b => some (.bool b)
  | .text s => some (.str s)
  | .bytes bs => some (.str (String.ofList (Text.Base64.encode bs)))
  | .message fields =>
    match type with
    | .message name => messageJson? pool name fields
    | _ => none

/-- The JSON form of a message; none if it has none. -/
def messageJson? (pool : Pool) (name : String) (m : List (Nat × Content)) : Option Json :=
  let plain := fieldsJson? pool (pool.fields name) m
  match WellKnown.special? name with
  | none => plain.map Json.object
  | some .timestamp => (timestampText? m).map Json.str
  | some .duration => some (.str (durationText m))
  | some .fieldMask => some (.str (fieldMaskText m))
  -- a wrapper stands for the value in it, and for its default where it has none
  | some (.wrapper t) =>
    match plain with
    | some [(_, v)] => some v
    | some _ => valueDefault t
    | none => none
  | some .struct =>
    match plain with
    | some [(_, v)] => some v
    | some _ => some .emptyObject
    | none => none
  | some .list =>
    match plain with
    | some [(_, v)] => some v
    | some _ => some (.arr [])
    | none => none
  | some .value =>
    match plain with
    | some [(_, v)] => some v
    | some _ => some .null
    | none => none

/-- The JSON forms of the fields that are present, under their JSON names. -/
def fieldsJson? (pool : Pool) (fields : List Field) :
    List (Nat × Content) → Option (List (String × Json))
  | [] => some []
  | (number, c) :: rest =>
    match fields.find? fun f => f.number = number with
    -- a number that the message does not declare is passed over
    | none => fieldsJson? pool fields rest
    | some f =>
      if isPresent pool f.form c then
        match contentJson? pool f.form c, fieldsJson? pool fields rest with
        | some v, some more => some ((f.jsonName, v) :: more)
        | _, _ => none
      else fieldsJson? pool fields rest

/-- The JSON form of what a field holds. -/
def contentJson? (pool : Pool) (form : FieldForm) : Content → Option Json
  | .single v =>
    match form with
    | .single type _ _ => valueJson? pool type v
    | _ => none
  | .list items =>
    match form with
    | .list type _ => (itemsJson? pool type items).map Json.arr
    | _ => none
  | .map entries =>
    match form with
    | .map _ type => (entriesJson? pool type entries).map Json.object
    | _ => none

/-- The JSON forms of the elements of a list. -/
def itemsJson? (pool : Pool) (type : ValueType) : List Value → Option (List Json)
  | [] => some []
  | v :: rest =>
    match valueJson? pool type v, itemsJson? pool type rest with
    | some x, some xs => some (x :: xs)
    | _, _ => none

/-- The JSON forms of the entries of a map. -/
def entriesJson? (pool : Pool) (type : ValueType) :
    List (MapKey × Value) → Option (List (String × Json))
  | [] => some []
  | (k, v) :: rest =>
    match valueJson? pool type v, entriesJson? pool type rest with
    | some x, some xs => some ((k.keyText, x) :: xs)
    | _, _ => none

end

/-- Writes a message as a JSON value; none if it has no such form. -/
def Message.toJson? (pool : Pool) (name : String) (m : Message) : Option Json :=
  messageJson? pool name m

end ItemComposition.Proto
