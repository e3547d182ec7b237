import ItemComposition.Proto.Pool
import ItemComposition.Proto.Wire
import ItemComposition.Text.Bytes

/-!
# Messages

The values of a message's fields, and their binary form by the description of the message.

- A field that is not tracked and holds its default is not written.
- A field that occurs several times counts once: the last single value, the parts of a message
  put together, the elements of a list in a row. Lists of numbers are read packed and unpacked.
- Of a group of fields of which at most one is set, the last one read stays.
- Fields without a description are passed over.

`Message.write` and `Message.read?` are the entry points.
-/

namespace ItemComposition.Proto

/-- A key of a map. -/
inductive MapKey where
  | int (n : Int)
  | bool (b : Bool)
  | text (s : String)
  deriving DecidableEq

mutual

/-- A single value. -/
inductive Value where
  /-- A whole number or the number of an enumeration's value. -/
  | int (n : Int)
  | real (x : Float)
  | bool (b : Bool)
  | text (s : String)
  | bytes (bs : Bytes)
  /-- A message: its fields in ascending order of their numbers. -/
  | message (fields : List (Nat × Content))

/-- What a field of a message holds. -/
inductive Content where
  | single (v : Value)
  | list (items : List Value)
  | map (entries : List (MapKey × Value))

end

/-- The fields of a message in ascending order of their numbers. -/
abbrev Message := List (Nat × Content)

namespace Message

/-- What a field holds. -/
def get? (m : Message) (number : Nat) : Option Content :=
  (m.find? fun e => e.1 = number).map Prod.snd

/-- Sets a field. -/
def set (m : Message) (number : Nat) (c : Content) : Message :=
  match m with
  | [] => [(number, c)]
  | e :: rest =>
    if number = e.1 then (number, c) :: rest
    else if number < e.1 then (number, c) :: e :: rest
    else e :: set rest number c

/-- Clears fields. -/
def clear (m : Message) (numbers : List Nat) : Message := m.filter fun e => !numbers.contains e.1

end Message

/-- The fields of a message that share a field's group, of which at most one is set. -/
def rivals (fields : List Field) (f : Field) : List Nat :=
  match f.form with
  | .single _ _ (some group) =>
    fields.filterMap fun g =>
      match g.form with
      | .single _ _ (some other) =>
        if other = group && g.number ≠ f.number then some g.number else none
      | _ => none
  | _ => []

/-! ## Single values -/

/-- A number as the remainder by a power of two. -/
def wrap (bits : Nat) (n : Int) : Nat := (n % Word.size bits).toNat

/-- The signed number of a count of bits that leaves a remainder. -/
def unwrap (bits n : Nat) : Int :=
  let r := n % Word.size bits
  if r < Word.size (bits - 1) then r else (r : Int) - Word.size bits

/-- A signed number as a number without sign: small ones stay small. -/
def zigzag (n : Int) : Nat :=
  match n with
  | .ofNat n => 2 * n
  | .negSucc n => 2 * n + 1

/-- The signed number that `zigzag` gives. -/
def unzigzag (n : Nat) : Int := if n % 2 = 0 then (n / 2 : Nat) else -((n / 2 : Nat) : Int) - 1

/-- A whole number of a type on the wire. -/
def intPayload (t : ScalarType) (n : Int) : Payload :=
  match t with
  | .sint32 | .sint64 => .varint (zigzag n)
  | .fixed32 | .sfixed32 => .fixed32 (wrap 32 n)
  | .fixed64 | .sfixed64 => .fixed64 (wrap 64 n)
  | _ => .varint (wrap 64 n)

/-- A number of a type on the wire. -/
def realPayload (t : ScalarType) (x : Float) : Payload :=
  if t = .float then .fixed32 x.toFloat32.toBits.toNat else .fixed64 x.toBits.toNat

/-- The scalar value of a type in a payload. -/
def scalar? (t : ScalarType) (p : Payload) : Option Value :=
  match t, p with
  | .int32, .varint n => some (.int (unwrap 32 n))
  | .int64, .varint n => some (.int (unwrap 64 n))
  | .uint32, .varint n => some (.int (n % Word.size 32 : Nat))
  | .uint64, .varint n => some (.int n)
  | .sint32, .varint n => some (.int (unzigzag (n % Word.size 32)))
  | .sint64, .varint n => some (.int (unzigzag n))
  | .bool, .varint n => some (.bool (n ≠ 0))
  | .fixed32, .fixed32 n => some (.int n)
  | .sfixed32, .fixed32 n => some (.int (unwrap 32 n))
  | .float, .fixed32 n => some (.real (Float32.ofBits n.toUInt32).toFloat)
  | .fixed64, .fixed64 n => some (.int n)
  | .sfixed64, .fixed64 n => some (.int (unwrap 64 n))
  | .double, .fixed64 n => some (.real (Float.ofBits n.toUInt64))
  | .string, .bytes bs => (Text.decode? bs).map Value.text
  | .bytes, .bytes bs => some (.bytes bs)
  | _, _ => none

/-- The default of a type. -/
def defaultValue (pool : Pool) : ValueType → Value
  | .scalar .bool => .bool false
  | .scalar .string => .text ""
  | .scalar .bytes => .bytes []
  | .scalar .double | .scalar .float => .real 0
  | .scalar _ => .int 0
  | .enumeration name => .int (pool.defaultNumber name)
  | .message _ => .message []

/-- Whether a value is the default of its type. -/
def isDefault (pool : Pool) (type : ValueType) : Value → Bool
  | .int n => match type with
    | .enumeration name => n = pool.defaultNumber name
    | _ => n = 0
  | .real x => x == 0
  | .bool b => !b
  | .text s => s = ""
  | .bytes bs => bs.isEmpty
  | .message fields => fields.isEmpty

/-- Whether a field counts as set with what it holds. -/
def isPresent (pool : Pool) (form : FieldForm) (c : Content) : Bool :=
  match form, c with
  | .single type tracked _, .single v => tracked || !isDefault pool type v
  | _, .list items => !items.isEmpty
  | _, .map entries => !entries.isEmpty
  | _, .single _ => true

/-- A key of a map as a value. -/
def MapKey.toValue : MapKey → Value
  | .int n => .int n
  | .bool b => .bool b
  | .text s => .text s

/-- A value as a key of a map. -/
def MapKey.ofValue? : Value → Option MapKey
  | .int n => some (.int n)
  | .bool b => some (.bool b)
  | .text s => some (.text s)
  | _ => none

/-! ## Writing -/

/-- The bytes of a payload inside a packed list. -/
def packedBytes : Payload → Bytes
  | .varint n => writeVarint n
  | .fixed32 n => writeFixed 4 n
  | .fixed64 n => writeFixed 8 n
  | .bytes bs => bs
  | .group _ => []

/-- The scalar type by which a value is written; numbers of enumerations are written as numbers. -/
def ValueType.written : ValueType → ScalarType
  | .scalar t => t
  | .enumeration _ => .int32
  | .message _ => .bytes

mutual

/-- A value on the wire. -/
def payload (pool : Pool) (type : ValueType) : Value → Payload
  | .int n => intPayload type.written n
  | .real x => realPayload type.written x
  | .bool b => .varint (if b then 1 else 0)
  | .text s => .bytes (Text.encode s)
  | .bytes bs => .bytes bs
  | .message fields =>
    match type with
    | .message name => .bytes (writeFields (wireFields pool (pool.fields name) fields))
    | _ => .bytes []

/-- The values of a list on the wire. -/
def payloads (pool : Pool) (type : ValueType) : List Value → List Payload
  | [] => []
  | v :: rest => payload pool type v :: payloads pool type rest

/-- The entries of a map on the wire; a key or value that is its default is left out. -/
def entryPayloads (pool : Pool) (key : ScalarType) (type : ValueType) :
    List (MapKey × Value) → List Payload
  | [] => []
  | (k, v) :: rest =>
    let keyValue := k.toValue
    let keyPart : List WireField :=
      if isDefault pool (.scalar key) keyValue then []
      else
        match keyValue with
        | .int n => [(1, intPayload key n)]
        | .bool b => [(1, .varint (if b then 1 else 0))]
        | .text s => [(1, .bytes (Text.encode s))]
        | _ => []
    let valuePart : List WireField :=
      if isDefault pool type v then [] else [(2, payload pool type v)]
    .bytes (writeFields (keyPart ++ valuePart)) :: entryPayloads pool key type rest

/-- What a field holds on the wire. -/
def contentPayloads (pool : Pool) (form : FieldForm) : Content → List Payload
  | .single v =>
    match form with
    | .single type _ _ => [payload pool type v]
    | _ => []
  | .list items =>
    match form with
    | .list type packed =>
      let parts := payloads pool type items
      if packed then [.bytes (parts.flatMap packedBytes)] else parts
    | _ => []
  | .map entries =>
    match form with
    | .map key type => entryPayloads pool key type entries
    | _ => []

/-- The fields of a message on the wire. -/
def wireFields (pool : Pool) (fields : List Field) : List (Nat × Content) → List WireField
  | [] => []
  | (number, c) :: rest =>
    let here : List WireField :=
      match fields.find? fun f => f.number = number with
      | some f =>
        if isPresent pool f.form c then
          (contentPayloads pool f.form c).map fun p => (number, p)
        else []
      | none => []
    here ++ wireFields pool fields rest

end

/-- The bytes of a message. -/
def Message.write (pool : Pool) (name : String) (m : Message) : Bytes :=
  writeFields (wireFields pool (pool.fields name) m)

/-! ## Reading -/

/-- The numbers in a row, in groups of seven bits. -/
def unpackVarints? (bs : Bytes) : Option (List Payload) :=
  if bs.isEmpty then some []
  else
    match readVarint? bs with
    | none => none
    | some p =>
      have := p.shorter
      (unpackVarints? p.rest).map (.varint p.value :: ·)
termination_by bs.length

/-- The numbers in a row, each in a given count of bytes. -/
def unpackFixed? (count : Nat) (wrap : Nat → Payload) : Nat → Bytes → Option (List Payload)
  | 0, bs => if bs.isEmpty then some [] else none
  | fuel + 1, bs =>
    if bs.isEmpty then some []
    else if bs.length < count then none
    else
      (unpackFixed? count wrap fuel (bs.drop count)).map (wrap (fixedValue (bs.take count)) :: ·)

/-- The payloads of a packed list. -/
def unpack? (type : ValueType) (bs : Bytes) : Option (List Payload) :=
  match type.written with
  | .fixed32 | .sfixed32 | .float => unpackFixed? 4 .fixed32 bs.length bs
  | .fixed64 | .sfixed64 | .double => unpackFixed? 8 .fixed64 bs.length bs
  | _ => unpackVarints? bs

/-- Puts an entry into a map. -/
def putEntry (entries : List (MapKey × Value)) (key : MapKey) (v : Value) :
    List (MapKey × Value) :=
  if entries.any fun e => e.1 = key then
    entries.map fun e => if e.1 = key then (key, v) else e
  else entries ++ [(key, v)]

/-- The elements of a list in a payload, given how one of them is read. -/
def elements? (type : ValueType) (single : Payload → Option Value) (p : Payload) :
    Option (List Value) :=
  match p with
  | .bytes bs =>
    if type.isPackable then (unpack? type bs).bind (·.mapM single)
    else (single p).map fun v => [v]
  | p => (single p).map fun v => [v]

/-- Reads the fields of a message on top of those that it has. `depth` is how deep messages may
still nest in it. -/
def Message.merge? (pool : Pool) (name : String) : Nat → Message → Bytes → Option Message
  | 0, _, _ => none
  | depth + 1, m, bs => do
    let fields := pool.fields name
    let single (type : ValueType) (before : Value) (p : Payload) : Option Value :=
      match type with
      | .message inner =>
        match before, p with
        | .message m, .bytes bs => (Message.merge? pool inner depth m bs).map .message
        | _, _ => none
      | type => scalar? type.written p
    let fresh (type : ValueType) (p : Payload) : Option Value :=
      single type (defaultValue pool type) p
    let entry (key : ScalarType) (type : ValueType) (bs : Bytes) : Option (MapKey × Value) := do
      let parts ← readFields? depth bs
      let start := (defaultValue pool (.scalar key), defaultValue pool type)
      let (k, v) ← parts.foldlM (fun (k, v) (part : WireField) =>
        -- an entry may lack its key or its value, and the last of several counts
        if part.1 = 1 then (scalar? key part.2).map fun k => (k, v)
        else if part.1 = 2 then (single type v part.2).map fun v => (k, v)
        else some (k, v)) start
      return (← MapKey.ofValue? k, v)
    let step (m : Message) (part : WireField) : Option Message :=
      match fields.find? fun f => f.number = part.1 with
      -- a field that the message does not declare is passed over
      | none => some m
      | some f =>
        -- a message that is set already is read on top of, not replaced
        match f.form, m.get? f.number with
        | .single type _ _, some (.single before) =>
          (single type before part.2).map fun v => m.set f.number (.single v)
        | .single type _ _, _ =>
          -- at most one field of a group is set
          (fresh type part.2).map fun v => (m.clear (rivals fields f)).set f.number (.single v)
        | .list type _, before =>
          -- elements are added to those that were read before
          let items := match before with
            | some (.list items) => items
            | _ => []
          (elements? type (fresh type) part.2).map fun more => m.set f.number (.list (items ++ more))
        | .map key type, before =>
          let entries := match before with
            | some (.map entries) => entries
            | _ => []
          match part.2 with
          | .bytes bs =>
            (entry key type bs).map fun e => m.set f.number (.map (putEntry entries e.1 e.2))
          | _ => none
    (← readFields? depth bs).foldlM step m

/-- Reads the bytes of a message. -/
def Message.read? (pool : Pool) (name : String) (bs : Bytes) : Option Message :=
  Message.merge? pool name (maxNesting + 1) [] bs

end ItemComposition.Proto
