import ItemComposition.Proto.Source

/-!
# Schema files that can always be imported
-/

namespace ItemComposition.Proto.WellKnown

/-- The package of all these files. -/
def package : String := "google.protobuf"

/-- A field with one value. -/
def one (name : String) (number : Nat) (type : TypeName) : FieldDecl :=
  { name, number, label := .optional, tracked := false, type
    jsonName := none, packed := none, oneof := none }

/-- A field with a list of values. -/
def several (name : String) (number : Nat) (type : TypeName) : FieldDecl :=
  { one name number type with label := .repeated }

/-- A message with fields only. -/
def message (name : String) (fields : List FieldDecl) : MessageDecl :=
  { Source.emptyMessage name with fields }

/-- A file in the directory of these files. -/
def file (name : String) (messages : List MessageDecl) : FileDecl :=
  { name := "google/protobuf/" ++ name, package, edition := .proto3, imports := [], messages
    enums := [], services := [] }

/-- The messages that hold a single value, with its type. -/
def wrappers : List (String × ScalarType) :=
  [("DoubleValue", .double), ("FloatValue", .float), ("Int64Value", .int64),
   ("UInt64Value", .uint64), ("Int32Value", .int32), ("UInt32Value", .uint32),
   ("BoolValue", .bool), ("StringValue", .string), ("BytesValue", .bytes)]

/-- Messages for values of any shape. -/
def structFile : FileDecl :=
  let entry : MessageDecl :=
    { message "FieldsEntry" [one "key" 1 (.scalar .string), one "value" 2 (.named "Value")] with
      isMapEntry := true }
  let ofKind (name : String) (number : Nat) (type : TypeName) : FieldDecl :=
    { one name number type with oneof := some 0 }
  { file "struct.proto" [
      { message "Struct" [several "fields" 1 (.named "FieldsEntry")] with messages := [entry] },
      { message "Value" [
          ofKind "null_value" 1 (.named "NullValue"), ofKind "number_value" 2 (.scalar .double),
          ofKind "string_value" 3 (.scalar .string), ofKind "bool_value" 4 (.scalar .bool),
          ofKind "struct_value" 5 (.named "Struct"), ofKind "list_value" 6 (.named "ListValue")]
        with oneofs := ["kind"] },
      message "ListValue" [several "values" 1 (.named "Value")]] with
    enums := [{ name := "NullValue", values := [("NULL_VALUE", 0)], allowAlias := false
                reservedRanges := [], reservedNames := [] }] }

/-- A message of seconds and nanoseconds. -/
def secondsMessage (name : String) : MessageDecl :=
  message name [one "seconds" 1 (.scalar .int64), one "nanos" 2 (.scalar .int32)]

/-- All these files. -/
def files : List FileDecl :=
  [file "any.proto" [message "Any" [one "type_url" 1 (.scalar .string),
     one "value" 2 (.scalar .bytes)]],
   file "duration.proto" [secondsMessage "Duration"],
   file "empty.proto" [message "Empty" []],
   file "field_mask.proto" [message "FieldMask" [several "paths" 1 (.scalar .string)]],
   file "source_context.proto" [message "SourceContext" [one "file_name" 1 (.scalar .string)]],
   structFile,
   file "timestamp.proto" [secondsMessage "Timestamp"],
   file "wrappers.proto" (wrappers.map fun w => message w.1 [one "value" 1 (.scalar w.2)])]

/-- The file of a name. -/
def file? (name : String) : Option FileDecl := files.find? fun f => f.name = name

/-- The messages with a form of their own in JSON. -/
inductive Special where
  | timestamp
  | duration
  | wrapper (t : ScalarType)
  | fieldMask
  | struct
  | list
  | value

/-- The form of its own that a message has in JSON. -/
def special? (fullName : String) : Option Special :=
  let named (name : String) : Bool := fullName = joinName package name
  if named "Timestamp" then some .timestamp
  else if named "Duration" then some .duration
  else if named "FieldMask" then some .fieldMask
  else if named "Struct" then some .struct
  else if named "ListValue" then some .list
  else if named "Value" then some .value
  else (wrappers.find? fun w => named w.1).map fun w => .wrapper w.2

/-- The enumeration that stands for null. -/
def nullName : String := joinName package "NullValue"

end ItemComposition.Proto.WellKnown
