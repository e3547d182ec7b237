import ItemComposition.Proto.Message
import ItemComposition.Proto.Source

/-!
# Schema declarations in binary form

A descriptor set is a message that describes schema files. `FileDecl.writeSet` writes one and
`FileDecl.readSet?` reads one; names of types stay as they are.
-/

namespace ItemComposition.Proto

namespace DescriptorSet

/-! ## Reading -/

/-- The payloads of the fields of a number. -/
def payloads (number : Nat) (fields : List WireField) : List Payload :=
  (fields.filter fun f => f.1 = number).map Prod.snd

/-- The texts in the fields of a number. -/
def texts? (number : Nat) (fields : List WireField) : Option (List String) :=
  (payloads number fields).mapM fun
    | .bytes bs => Text.decode? bs
    | _ => none

/-- The text in the last field of a number. -/
def text? (number : Nat) (fields : List WireField) : Option (Option String) :=
  (texts? number fields).map List.getLast?

/-- The numbers in the fields of a number, packed or not. -/
def numbers? (number : Nat) (fields : List WireField) : Option (List Int) := do
  let parts ← (payloads number fields).mapM fun
    | .bytes bs => unpackVarints? bs
    | p => some [p]
  parts.flatten.mapM fun
    | .varint n => some (unwrap 32 n)
    | _ => none

/-- The number in the last field of a number. -/
def number? (number : Nat) (fields : List WireField) : Option (Option Int) :=
  (numbers? number fields).map List.getLast?

/-- Whether the last field of a number is true. -/
def flag? (number : Nat) (fields : List WireField) : Option Bool :=
  (number? number fields).map fun n => n.any (· ≠ 0)

/-- The messages in the fields of a number. -/
def parts? (number : Nat) (fields : List WireField) : Option (List (List WireField)) :=
  (payloads number fields).mapM fun
    | .bytes bs => readFields? maxNesting bs
    | _ => none

/-- The message in the fields of a number, put together. -/
def part? (number : Nat) (fields : List WireField) : Option (List WireField) :=
  (parts? number fields).map List.flatten

/-- A range of numbers, whose end is one past the last number if `open` is set. -/
def range? (isOpen : Bool) (fields : List WireField) : Option (Int × Int) := do
  let low ← number? 1 fields
  let high ← number? 2 fields
  return (low.getD 0, high.getD 0 - if isOpen then 1 else 0)

/-- A range of field numbers. -/
def fieldRange? (fields : List WireField) : Option (Nat × Nat) :=
  (range? true fields).map fun r => (r.1.toNat, r.2.toNat)

/-- The type of a field by its number and name. -/
def typeName? (number : Option Int) (name : Option String) : Option TypeName :=
  match number, name with
  | none, some name => some (.named name)
  | some n, name =>
    match ScalarType.ofNumber? n.toNat with
    | some t => some (.scalar t)
    | none => if n = 11 || n = 14 then name.map TypeName.named else none
  | none, none => none

/-- A field. -/
def field? (fields : List WireField) : Option FieldDecl := do
  let name ← text? 1 fields
  let number ← number? 3 fields
  let label ← number? 4 fields
  let type ← typeName? (← number? 5 fields) (← text? 6 fields)
  let options ← part? 8 fields
  let packed ← number? 2 options
  let oneof ← number? 9 fields
  return {
    name := name.getD ""
    number := (number.getD 0).toNat
    label := if label = some 3 then .repeated else if label = some 2 then .required else .optional
    tracked := ← flag? 17 fields
    type
    jsonName := ← text? 10 fields
    packed := packed.map (· ≠ 0)
    oneof := oneof.map Int.toNat }

/-- A value of an enumeration. -/
def enumValue? (fields : List WireField) : Option (String × Int) := do
  let name ← text? 1 fields
  let number ← number? 2 fields
  return (name.getD "", number.getD 0)

/-- An enumeration. -/
def enum? (fields : List WireField) : Option EnumDecl := do
  let name ← text? 1 fields
  let values ← (← parts? 2 fields).mapM enumValue?
  let options ← part? 3 fields
  return {
    name := name.getD ""
    values
    allowAlias := ← flag? 2 options
    reservedRanges := ← (← parts? 4 fields).mapM (range? false)
    reservedNames := ← texts? 5 fields }

/-- A message; `depth` is how deep messages may nest in it. -/
def message? : Nat → List WireField → Option MessageDecl
  | 0, _ => none
  | depth + 1, fields => do
    let name ← text? 1 fields
    let oneofs ← (← parts? 8 fields).mapM (text? 1)
    let options ← part? 7 fields
    return {
      name := name.getD ""
      fields := ← (← parts? 2 fields).mapM field?
      messages := ← (← parts? 3 fields).mapM (message? depth)
      enums := ← (← parts? 4 fields).mapM enum?
      oneofs := oneofs.map (·.getD "")
      reservedRanges := ← (← parts? 9 fields).mapM fieldRange?
      reservedNames := ← texts? 10 fields
      extensionRanges := ← (← parts? 5 fields).mapM fieldRange?
      isMapEntry := ← flag? 7 options }

/-- A method. -/
def method? (fields : List WireField) : Option MethodDecl := do
  let name ← text? 1 fields
  let input ← text? 2 fields
  let output ← text? 3 fields
  return {
    name := name.getD "", input := input.getD "", output := output.getD ""
    streamsInput := ← flag? 5 fields
    streamsOutput := ← flag? 6 fields }

/-- A service. -/
def service? (fields : List WireField) : Option ServiceDecl := do
  let name ← text? 1 fields
  let methods ← (← parts? 2 fields).mapM method?
  return ⟨name.getD "", methods⟩

/-- A file. -/
def file? (fields : List WireField) : Option FileDecl := do
  let name ← text? 1 fields
  let package ← text? 2 fields
  let paths ← texts? 3 fields
  let shared ← numbers? 10 fields
  -- a file that does not say is of the second edition
  let edition ← match (← text? 12 fields) with
    | none | some "proto2" => some Edition.proto2
    | some "proto3" => some Edition.proto3
    | some _ => none
  return {
    name := name.getD ""
    package := package.getD ""
    edition
    imports := paths.zipIdx.map fun p => ⟨p.1, shared.contains p.2⟩
    messages := ← (← parts? 4 fields).mapM (message? maxNesting)
    enums := ← (← parts? 5 fields).mapM enum?
    services := ← (← parts? 6 fields).mapM service? }

/-! ## Writing -/

/-- A field with a text. -/
def text (number : Nat) (s : String) : WireField := (number, .bytes (Text.encode s))

/-- A field with a whole number. -/
def int (number : Nat) (n : Int) : WireField := (number, .varint (wrap 64 n))

/-- A field that says that something holds; none if it does not. -/
def flag (number : Nat) (b : Bool) : List WireField := if b then [(number, .varint 1)] else []

/-- A field with a message. -/
def part (number : Nat) (fields : List WireField) : WireField :=
  (number, .bytes (writeFields fields))

/-- Options; nothing if none are set. -/
def options (number : Nat) (fields : List WireField) : List WireField :=
  if fields.isEmpty then [] else [part number fields]

/-- A range of numbers. -/
def rangeFields (low high : Int) : List WireField := [int 1 low, int 2 high]

/-- A range of field numbers, with the end one past the last. -/
def fieldRange (number : Nat) (r : Nat × Nat) : WireField := part number (rangeFields r.1 (r.2 + 1))

/-- The number of a label. -/
def labelNumber : Label → Int
  | .optional => 1
  | .required => 2
  | .repeated => 3

/-- The type of a field. -/
def typeFields : TypeName → List WireField
  | .scalar t => [int 5 t.number]
  | .named name => [text 6 name]

/-- A field. -/
def fieldFields (f : FieldDecl) : List WireField :=
  [text 1 f.name, int 3 f.number, int 4 (labelNumber f.label)] ++ typeFields f.type
    ++ options 8 (f.packed.toList.map fun b => int 2 (if b then 1 else 0))
    ++ (f.oneof.map fun n => int 9 (n : Nat)).toList ++ f.jsonName.toList.map (text 10) ++ flag 17 f.tracked

/-- An enumeration. -/
def enumFields (e : EnumDecl) : List WireField :=
  [text 1 e.name] ++ e.values.map (fun v => part 2 [text 1 v.1, int 2 v.2])
    ++ options 3 (flag 2 e.allowAlias)
    ++ e.reservedRanges.map (fun r => part 4 (rangeFields r.1 r.2)) ++ e.reservedNames.map (text 5)

mutual

/-- A message. -/
def messageFields : MessageDecl → List WireField
  | ⟨name, fields, messages, enums, oneofs, ranges, names, extensions, isMapEntry⟩ =>
    [text 1 name] ++ fields.map (fun f => part 2 (fieldFields f)) ++ innerFields 3 messages
      ++ enums.map (fun e => part 4 (enumFields e)) ++ extensions.map (fieldRange 5)
      ++ options 7 (flag 7 isMapEntry) ++ oneofs.map (fun o => part 8 [text 1 o])
      ++ ranges.map (fieldRange 9) ++ names.map (text 10)

/-- Messages in fields of a number. -/
def innerFields (number : Nat) : List MessageDecl → List WireField
  | [] => []
  | m :: rest => part number (messageFields m) :: innerFields number rest

end

/-- A method. -/
def methodFields (m : MethodDecl) : List WireField :=
  [text 1 m.name, text 2 m.input, text 3 m.output] ++ flag 5 m.streamsInput
    ++ flag 6 m.streamsOutput

/-- A service. -/
def serviceFields (s : ServiceDecl) : List WireField :=
  text 1 s.name :: s.methods.map fun m => part 2 (methodFields m)

/-- A file. -/
def fileFields (f : FileDecl) : List WireField :=
  [text 1 f.name, text 2 f.package] ++ f.imports.map (fun i => text 3 i.path)
    ++ innerFields 4 f.messages ++ f.enums.map (fun e => part 5 (enumFields e))
    ++ f.services.map (fun s => part 6 (serviceFields s))
    ++ ((f.imports.zipIdx.filter fun i => i.1.isPublic).map fun i => int 10 i.2)
    ++ [text 12 (match f.edition with | .proto2 => "proto2" | .proto3 => "proto3")]

end DescriptorSet

/-- Writes files as a descriptor set. -/
def FileDecl.writeSet (files : List FileDecl) : Bytes :=
  writeFields (files.map fun f => DescriptorSet.part 1 (DescriptorSet.fileFields f))

/-- Reads the files of a descriptor set. -/
def FileDecl.readSet? (bs : Bytes) : Option (List FileDecl) := do
  let fields ← readFields? maxNesting bs
  (← DescriptorSet.parts? 1 fields).mapM DescriptorSet.file?

end ItemComposition.Proto
