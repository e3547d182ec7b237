import ItemComposition.Proto.Declaration
import ItemComposition.Proto.Statement
import ItemComposition.Text.Bytes

/-!
# Schema sources

Reads the source text of a schema file as declarations. What a source says with names is checked
later, when the names are looked up; here it has to be well formed.
-/

namespace ItemComposition.Proto

namespace Source

/-! ## Parts of statements -/

/-- The name that a word starts, and what follows it. -/
def dotted (name : String) : List Token → String × List Token
  | .mark '.' :: .word w :: rest => dotted (name ++ "." ++ w) rest
  | rest => (name, rest)

/-- A name with dots, one of which may stand in front. -/
def typeName? : List Token → Option (TypeName × List Token)
  | .mark '.' :: .word w :: rest =>
    let (name, rest) := dotted ("." ++ w) rest
    some (.named name, rest)
  | .word w :: rest =>
    let (name, rest) := dotted w rest
    match ScalarType.ofWord? name with
    | some t => some (.scalar t, rest)
    | none => some (.named name, rest)
  | _ => none

/-- A text written in several parts. -/
def textParts : List Token → Bytes × List Token
  | .text bs :: rest => let (more, rest) := textParts rest; (bs ++ more, rest)
  | rest => ([], rest)

/-- A single text and nothing else. -/
def wholeText? (ts : List Token) : Option String :=
  match ts with
  | .text _ :: _ =>
    match textParts ts with
    | (bs, []) => Text.decode? bs
    | _ => none
  | _ => none

/-- Splits a run of tokens at the commas outside of inner brackets and braces. -/
def commaParts (depth : Nat) (part : List Token) : List Token → List (List Token)
  | [] => [part.reverse]
  | t :: rest =>
    -- a comma inside brackets separates nothing
    if t = .mark ',' && depth = 0 then part.reverse :: commaParts 0 [] rest
    else
      let depth := match t with
        | .mark c =>
          if c = '[' || c = '\x7b' || c = '<' then depth + 1
          else if c = ']' || c = '\x7d' || c = '>' then depth - 1
          else depth
        | _ => depth
      commaParts depth (t :: part) rest

/-! ## Options -/

/-- What an option may be set to. -/
inductive OptionKind where
  | flag
  | text
  | choice (words : List String)

/-- Whether tokens are a value of a kind. -/
def OptionKind.accepts (value : List Token) : OptionKind → Bool
  | .flag => value = [.word "true"] || value = [.word "false"]
  | .text => (wholeText? value).isSome
  | .choice words => words.any fun w => value = [.word w]

/-- An option as set: its name and the tokens of its value. -/
structure Setting where
  name : String
  value : List Token

/-- An option with a name of one word. Options of other names need declarations that no file that
can be imported has. -/
def setting? : List Token → Option Setting
  | .word name :: .mark '=' :: value => if value.isEmpty then none else some ⟨name, value⟩
  | _ => none

/-- Whether options are known, rightly set and set once. -/
def areAllowed (known : List (String × OptionKind)) (settings : List Setting) : Bool :=
  (settings.map Setting.name).Nodup && settings.all fun s =>
    known.any fun k => k.1 = s.name && k.2.accepts s.value

/-- Options of files. -/
def fileOptions : List (String × OptionKind) :=
  [("java_package", .text), ("java_outer_classname", .text), ("java_multiple_files", .flag),
   ("java_generate_equals_and_hash", .flag), ("java_string_check_utf8", .flag),
   ("optimize_for", .choice ["SPEED", "CODE_SIZE", "LITE_RUNTIME"]), ("go_package", .text),
   ("cc_generic_services", .flag), ("java_generic_services", .flag),
   ("py_generic_services", .flag), ("deprecated", .flag), ("cc_enable_arenas", .flag),
   ("objc_class_prefix", .text), ("csharp_namespace", .text), ("swift_prefix", .text),
   ("php_class_prefix", .text), ("php_namespace", .text), ("php_metadata_namespace", .text),
   ("ruby_package", .text)]

/-- Options of messages. -/
def messageOptions : List (String × OptionKind) :=
  [("message_set_wire_format", .flag), ("no_standard_descriptor_accessor", .flag),
   ("deprecated", .flag), ("deprecated_legacy_json_field_conflicts", .flag)]

/-- Options of fields. -/
def fieldOptions : List (String × OptionKind) :=
  [("ctype", .choice ["STRING", "CORD", "STRING_PIECE"]), ("packed", .flag),
   ("jstype", .choice ["JS_NORMAL", "JS_STRING", "JS_NUMBER"]), ("lazy", .flag),
   ("unverified_lazy", .flag), ("deprecated", .flag), ("weak", .flag), ("debug_redact", .flag),
   ("json_name", .text)]

/-- Options of enumerations. -/
def enumOptions : List (String × OptionKind) :=
  [("allow_alias", .flag), ("deprecated", .flag), ("deprecated_legacy_json_field_conflicts", .flag)]

/-- Options of the values of enumerations. -/
def enumValueOptions : List (String × OptionKind) := [("deprecated", .flag), ("debug_redact", .flag)]

/-- Options of services. -/
def serviceOptions : List (String × OptionKind) := [("deprecated", .flag)]

/-- Options of methods. -/
def methodOptions : List (String × OptionKind) :=
  [("deprecated", .flag),
   ("idempotency_level", .choice ["IDEMPOTENCY_UNKNOWN", "NO_SIDE_EFFECTS", "IDEMPOTENT"])]

/-- Options in brackets at the end of a statement, if there are any. -/
def bracketed? (ts : List Token) : Option (List Setting) :=
  match ts with
  | [] => some []
  | .mark '[' :: rest =>
    if rest.getLast? = some (.mark ']') then (commaParts 0 [] rest.dropLast).mapM setting?
    else none
  | _ => none

/-- The value that an option is set to. -/
def valueOf? (settings : List Setting) (name : String) : Option (List Token) :=
  (settings.find? fun s => s.name = name).map Setting.value

/-- The options that statements of a block set. -/
def settingsIn? (block : List Statement) : Option (List Setting) :=
  block.foldrM (fun s found =>
    match s.block, s.head with
    | none, [] => some found
    | none, .word "option" :: rest => (setting? rest).map (· :: found)
    | none, _ => some found
    | some _, _ => some found) []

/-! ## Fields -/

/-- A field after its type: its name, its number and its options. -/
def fieldTail? (edition : Edition) (label : Label) (tracked : Bool) (oneof : Option Nat)
    (type : TypeName) : List Token → Option FieldDecl
  | .word name :: .mark '=' :: .int number :: rest => do
    let settings ← bracketed? rest
    let (defaults, others) := settings.partition fun s => s.name = "default"
    -- defaults are of the second edition, and one at most
    let mayDefault := edition = .proto2 && label ≠ .repeated
    if !isFieldNumber number || !areAllowed fieldOptions others then none
    else if !(defaults.isEmpty || (mayDefault && defaults.length = 1)) then none
    else
      return {
        name, number, label, tracked, type, oneof
        jsonName := (valueOf? others "json_name").bind wholeText?
        packed := (valueOf? others "packed").map fun v => v = [.word "true"] }
  | _ => none

/-- The label that a word stands for. -/
def label? : Token → Option Label
  | .word w =>
    if w = "optional" then some .optional
    else if w = "required" then some .required
    else if w = "repeated" then some .repeated
    else none
  | _ => none

/-- A field of a message, with its label. -/
def field? (edition : Edition) (ts : List Token) : Option FieldDecl :=
  match ts with
  | [] => none
  | t :: rest =>
    match label? t with
    | some label =>
      -- the third edition has no required fields
      if edition = .proto3 && label = .required then none
      else do
        let (type, rest) ← typeName? rest
        -- the third edition tracks presence where a label asks for it
        fieldTail? edition label (edition = .proto3 && label = .optional) none type rest
    | none =>
      -- the second edition wants a label
      if edition = .proto2 then none
      else do
        let (type, rest) ← typeName? ts
        fieldTail? edition .optional false none type rest

/-- A field of a group of which at most one is set. -/
def oneofField? (edition : Edition) (oneof : Nat) (ts : List Token) : Option FieldDecl :=
  match ts with
  | [] => none
  | t :: _ =>
    if (label? t).isSome then none
    else do
      let (type, rest) ← typeName? ts
      fieldTail? edition .optional false (some oneof) type rest

/-- A part of a map's entries. -/
def entryField (name : String) (number : Nat) (type : TypeName) : FieldDecl :=
  { name, number, label := .optional, tracked := false, type
    jsonName := none, packed := none, oneof := none }

/-- A message with nothing in it. -/
def emptyMessage (name : String) : MessageDecl :=
  { name, fields := [], messages := [], enums := [], oneofs := [], reservedRanges := []
    reservedNames := [], extensionRanges := [], isMapEntry := false }

/-- A map: a repeated field, and the message of its entries. -/
def mapField? (edition : Edition) : List Token → Option (FieldDecl × MessageDecl)
  | .word "map" :: .mark '<' :: .word key :: .mark ',' :: rest => do
    let keyType ← (ScalarType.ofWord? key).filter ScalarType.isKeyType
    let (valueType, rest) ← typeName? rest
    match rest with
    | .mark '>' :: .word name :: rest =>
      let entry := mapEntryName name
      let field ← fieldTail? edition .repeated false none (.named entry) (.word name :: rest)
      -- the entries are messages, which cannot be packed
      if field.packed.isSome then none
      else
        return (field, { emptyMessage entry with
          isMapEntry := true
          fields := [entryField "key" 1 (.scalar keyType), entryField "value" 2 valueType] })
    | _ => none
  | _ => none

/-! ## Reserved numbers and names -/

/-- A whole number with an optional sign. -/
def signed? : List Token → Option (Int × List Token)
  | .mark '-' :: .int n :: rest => some (-(n : Int), rest)
  | .int n :: rest => some (n, rest)
  | _ => none

/-- A number or a range of numbers up to a limit. -/
def range? (limit : Int) (ts : List Token) : Option (Int × Int) :=
  match signed? ts with
  | some (low, []) => some (low, low)
  | some (low, .word "to" :: rest) =>
    match rest, signed? rest with
    | [.word "max"], _ => some (low, limit)
    | _, some (high, []) => if low ≤ high then some (low, high) else none
    | _, _ => none
  | _ => none

/-- What a reservation names: ranges of numbers, or names. -/
def reserved? (limit : Int) (ts : List Token) : Option (List (Int × Int) × List String) :=
  let parts := commaParts 0 [] ts
  match parts.mapM (range? limit), parts.mapM wholeText? with
  | some ranges, _ => some (ranges, [])
  | none, some names => some ([], names)
  | none, none => none

/-- Ranges of field numbers. -/
def fieldRanges? (ranges : List (Int × Int)) : Option (List (Nat × Nat)) :=
  ranges.mapM fun r =>
    if 0 < r.1 && r.2 ≤ (greatestFieldNumber : Int) then some (r.1.toNat, r.2.toNat) else none

/-! ## Enumerations -/

/-- Numbers of the values of enumerations. -/
def isEnumNumber (n : Int) : Bool := Word.isSigned 32 n

/-- One statement of an enumeration. -/
def enumMember? (e : EnumDecl) (s : Statement) : Option EnumDecl :=
  match s.block, s.head with
  | some _, _ => none
  | none, [] => some e
  | none, .word "option" :: rest => (setting? rest).map fun _ => e
  | none, .word "reserved" :: rest => do
    let (ranges, names) ← reserved? (Word.greatest 32) rest
    return { e with
      reservedRanges := e.reservedRanges ++ ranges, reservedNames := e.reservedNames ++ names }
  | none, .word name :: .mark '=' :: rest => do
    let (number, rest) ← signed? rest
    let settings ← bracketed? rest
    if isEnumNumber number && areAllowed enumValueOptions settings then
      return { e with values := e.values ++ [(name, number)] }
    else none
  | none, _ => none

/-- An enumeration. -/
def enum? (name : String) (block : List Statement) : Option EnumDecl := do
  let settings ← settingsIn? block
  let start : EnumDecl :=
    { name, values := [], reservedRanges := [], reservedNames := []
      allowAlias := valueOf? settings "allow_alias" = some [.word "true"] }
  if areAllowed enumOptions settings then block.foldlM enumMember? start else none

/-! ## Messages -/

/-- One statement of a group of fields. -/
def oneofMember? (edition : Edition) (oneof : Nat) (s : Statement) : Option (Option FieldDecl) :=
  match s.block, s.head with
  | some _, _ => none
  | none, [] => some none
  | none, ts => (oneofField? edition oneof ts).map some

/-- A statement of a message that has no block. -/
def plainMember? (edition : Edition) (m : MessageDecl) (ts : List Token) : Option MessageDecl :=
  match ts with
  | [] => some m
  | .word "option" :: rest => (setting? rest).map fun _ => m
  | .word "reserved" :: rest => do
    let (ranges, names) ← reserved? greatestFieldNumber rest
    let ranges ← fieldRanges? ranges
    return { m with
      reservedRanges := m.reservedRanges ++ ranges, reservedNames := m.reservedNames ++ names }
  | .word "extensions" :: rest => do
    let ranges ← (commaParts 0 [] rest).mapM (range? greatestFieldNumber)
    let ranges ← fieldRanges? ranges
    if edition = .proto2 then
      return { m with extensionRanges := m.extensionRanges ++ ranges }
    else none
  | .word "map" :: .mark '<' :: _ => do
    let (field, entry) ← mapField? edition ts
    return { m with fields := m.fields ++ [field], messages := m.messages ++ [entry] }
  | ts => (field? edition ts).map fun f => { m with fields := m.fields ++ [f] }

/-- A statement of a message that has a block without messages in it. -/
def blockMember? (edition : Edition) (m : MessageDecl) (head : List Token)
    (block : List Statement) : Option MessageDecl :=
  match head with
  | [.word "enum", .word name] =>
    (enum? name block).map fun e => { m with enums := m.enums ++ [e] }
  | [.word "oneof", .word name] => do
    let fields ← block.mapM (oneofMember? edition m.oneofs.length)
    let fields := fields.filterMap id
    -- a group holds one field at least
    if fields.isEmpty then none
    else return { m with fields := m.fields ++ fields, oneofs := m.oneofs ++ [name] }
  | _ => none

mutual

/-- Reads one statement of a message. -/
def member? (edition : Edition) (m : MessageDecl) : Statement → Option MessageDecl
  | .mk head none => plainMember? edition m head
  | .mk head (some block) =>
    match head with
    | [.word "message", .word name] => do
      let settings ← settingsIn? block
      let inner ← members? edition (emptyMessage name) block
      if areAllowed messageOptions settings then
        return { m with messages := m.messages ++ [inner] }
      else none
    | head => blockMember? edition m head block

/-- Reads the statements of a message. -/
def members? (edition : Edition) (m : MessageDecl) : List Statement → Option MessageDecl
  | [] => some m
  | s :: rest =>
    match member? edition m s with
    | some m => members? edition m rest
    | none => none

end

/-! ## Services -/

/-- A message type in parentheses, and whether a stream of messages is meant. -/
def operand? : List Token → Option (String × Bool × List Token)
  | .mark '(' :: .word "stream" :: rest =>
    match typeName? rest with
    | some (.named name, .mark ')' :: rest) => some (name, true, rest)
    | _ => none
  | .mark '(' :: rest =>
    match typeName? rest with
    | some (.named name, .mark ')' :: rest) => some (name, false, rest)
    | _ => none
  | _ => none

/-- A method of a service. -/
def method? : List Token → Option MethodDecl
  | .word "rpc" :: .word name :: rest =>
    match operand? rest with
    | some (input, streamsInput, .word "returns" :: rest) =>
      match operand? rest with
      | some (output, streamsOutput, []) =>
        some { name, input, output, streamsInput, streamsOutput }
      | _ => none
    | _ => none
  | _ => none

/-- Whether a block holds nothing but options. -/
def holdsOptionsOnly (block : List Statement) : Bool :=
  block.all fun s => s.block.isNone && match s.head with
    | [] | .word "option" :: _ => true
    | _ => false

/-- One statement of a service. -/
def serviceMember? (s : ServiceDecl) (statement : Statement) : Option ServiceDecl :=
  match statement.block, statement.head with
  | none, [] => some s
  | none, .word "option" :: rest => (setting? rest).map fun _ => s
  | none, ts => (method? ts).map fun m => { s with methods := s.methods ++ [m] }
  | some block, ts => do
    let settings ← settingsIn? block
    let m ← method? ts
    -- the block of a method holds options and nothing else
    if holdsOptionsOnly block && areAllowed methodOptions settings then
      return { s with methods := s.methods ++ [m] }
    else none

/-- A service. -/
def service? (name : String) (block : List Statement) : Option ServiceDecl := do
  let settings ← settingsIn? block
  if areAllowed serviceOptions settings then block.foldlM serviceMember? ⟨name, []⟩ else none

/-! ## Files -/

/-- A file while it is read. -/
structure Draft where
  file : FileDecl
  hasPackage : Bool

/-- One statement of a file after the statement of its edition. -/
def fileMember? (d : Draft) (s : Statement) : Option Draft :=
  let f := d.file
  let import? (isPublic : Bool) (ts : List Token) : Option Draft :=
    (wholeText? ts).map fun path =>
      { d with file := { f with imports := f.imports ++ [⟨path, isPublic⟩] } }
  match s.block, s.head with
  | none, [] => some d
  | none, .word "package" :: .word w :: rest =>
    match dotted w rest with
    -- a file names its package once
    | (name, []) => if d.hasPackage then none else some ⟨{ f with package := name }, true⟩
    | _ => none
  | none, .word "import" :: .word kind :: rest =>
    if kind = "public" || kind = "weak" then import? (kind = "public") rest else none
  | none, .word "import" :: rest => import? false rest
  | none, .word "option" :: rest => (setting? rest).map fun _ => d
  | some block, [.word "message", .word name] => do
    let settings ← settingsIn? block
    let m ← members? f.edition (emptyMessage name) block
    if areAllowed messageOptions settings then
      return { d with file := { f with messages := f.messages ++ [m] } }
    else none
  | some block, [.word "enum", .word name] =>
    (enum? name block).map fun e => { d with file := { f with enums := f.enums ++ [e] } }
  | some block, [.word "service", .word name] =>
    (service? name block).map fun s => { d with file := { f with services := f.services ++ [s] } }
  | _, _ => none

/-- The edition that the first statement names, and the statements after it. -/
def edition? (statements : List Statement) : Option (Edition × List Statement) :=
  match statements with
  | .mk (.word "syntax" :: .mark '=' :: value) none :: rest =>
    match wholeText? value with
    | some word =>
      if word = "proto3" then some (.proto3, rest)
      else if word = "proto2" then some (.proto2, rest)
      else none
    | none => none
  | statements => some (.proto2, statements)

end Source

/-- The declarations in the source text of a file. -/
def FileDecl.ofSource? (name : String) (source : List Char) : Option FileDecl := do
  let tokens ← Token.ofChars? source
  let statements ← Statement.ofTokens? tokens
  let (edition, rest) ← Source.edition? statements
  let settings ← Source.settingsIn? rest
  let empty : FileDecl :=
    { name, package := "", edition, imports := [], messages := [], enums := [], services := [] }
  if Source.areAllowed Source.fileOptions settings then
    let draft ← rest.foldlM Source.fileMember? ⟨empty, false⟩
    return draft.file
  else none

end ItemComposition.Proto
