import ItemComposition.Interpolation.Filter.Items
import ItemComposition.Interpolation.Filter.Words
import ItemComposition.Time.Calendar

/-!
# The text interpolation language: filters

`Filter.run?` looks a filter up by its name and applies it to a value. A filter fails if it does
not exist, if the value is not of its kind, or if an argument is missing or of the wrong kind.
-/

namespace ItemComposition.Interpolation.Filter

/-- The named arguments of a filter. -/
abbrev Arguments := Dict Json

/-- An argument that may be absent. -/
def optional {α : Type} (read : Json → Option α) (absent : α) (args : Arguments) (key : String) :
    Option α :=
  match args.get? key with
  | some v => read v
  | none => some absent

/-- An argument that has to be present. -/
def required {α : Type} (read : Json → Option α) (args : Arguments) (key : String) : Option α :=
  (args.get? key).bind read

/-- A number as a double. -/
def float? (v : Json) : Option Float := v.num?.map Number.toFloat

/-- A whole number that is not negative. -/
def nat? : Json → Option Nat
  | .num (.int (.ofNat n)) => some n
  | _ => none

/-- A whole number in the signed 64-bit range. -/
def int? (v : Json) : Option Int := v.num?.bind Number.toInt64?

/-- A double as a number; not-a-number and infinities are null. -/
def ofFloat (x : Float) : Json :=
  if x.isFinite then .num (.float x) else .null

/-- Filters from text to text without arguments. -/
def plainText? : String → Option (List Char → List Char)
  | "upper" => some (·.flatMap Text.upperChar)
  | "lower" => some fun cs => (Text.lower (String.ofList cs)).toList
  | "trim" => some fun cs => Text.trimEnd (Text.trimStart cs)
  | "trim_start" => some Text.trimStart
  | "trim_end" => some Text.trimEnd
  | "capitalize" => some fun cs => (Words.capitalize (String.ofList cs)).toList
  | "title" => some Words.title
  | "addslashes" => some Words.addSlashes
  | "linebreaksbr" => some Words.lineBreaks
  | "spaceless" => some Words.spaceless
  | "striptags" => some Words.stripTags
  | "escape" => some Words.escapeMarkup
  | "escape_xml" => some Words.escapeStrictMarkup
  | "urlencode" => some fun cs =>
      (Words.percentEncode Words.isAddressChar (String.ofList cs)).toList
  | "urlencode_strict" => some fun cs =>
      (Words.percentEncode Char.isAlphanum (String.ofList cs)).toList
  | "slugify" => some Words.slug
  | _ => none

/-- Filters on text with arguments, or with a result of another kind. -/
def onText? (name : String) (s : String) (args : Arguments) : Option (Option Json) :=
  match name with
  | "trim_start_matches" => some do
    let mark ← required Json.str? args "pat"
    return .str (String.ofList (Words.dropMarks mark.toList s.toList))
  | "trim_end_matches" => some do
    let mark ← required Json.str? args "pat"
    return .str (String.ofList (Words.dropMarks mark.toList.reverse s.toList.reverse).reverse)
  | "truncate" => some do
    let count ← optional nat? 255 args "length"
    let mark ← optional Json.str? "…" args "end"
    return .str (Words.truncate count mark s)
  | "wordcount" => some (some (.int (Words.words s.toList).length))
  | "replace" => some do
    let mark ← required Json.str? args "from"
    let new ← required Json.str? args "to"
    return .str (Words.replace mark new s)
  | "indent" => some do
    let lead ← optional Json.str? "    " args "prefix"
    let first ← optional Json.bool? false args "first"
    let blank ← optional Json.bool? false args "blank"
    return .str (Words.indent lead first blank s)
  | "split" => some do
    let mark ← required Json.str? args "pat"
    return .arr ((Words.split mark s).map Json.str)
  | _ => none

/-- Whole numbers from text: a mark of the base may stand before the digits. -/
def toInt (args : Arguments) (v : Json) : Option Json := do
  let otherwise ← optional int? 0 args "default"
  let base ← optional nat? 10 args "base"
  match v with
  -- read as a double on the way, so a long number may be rounded
  | .num (.int n) => return .int (Binary64.clampInt64 (Binary64.toInt64 (Binary64.ofInt n)))
  | .num (.float x) => return .int (Binary64.toInt64 x)
  | .str s =>
    -- bases go up to the number of digits and letters there are
    if base < 2 || 36 < base then none
    else
      let cs := (Text.trim s).toList
      let mark := match base with
        | 2 => ['0', 'b']
        | 8 => ['0', 'o']
        | 16 => ['0', 'x']
        | _ => []
      let cs := Words.dropMarks mark cs
      match Words.readInt? base cs with
      | some n => return .int n
      | none =>
        if cs.contains '.' then
          match Decimal.readFloat? cs with
          | some x => return .int (Binary64.toInt64 x)
          | none => return .int otherwise
        else return .int otherwise
  | _ => none

/-- Doubles from text and numbers. -/
def toFloat (args : Arguments) (v : Json) : Option Json := do
  let otherwise ← optional float? 0 args "default"
  match v with
  | .num n => return ofFloat n.toFloat
  | .str s => return ofFloat ((Decimal.readFloat? (Text.trim s).toList).getD otherwise)
  | _ => none

/-- A power of ten, or the inverse of one. -/
def powerOfTen (e : Int) : Float :=
  if 0 ≤ e then Binary64.power 10 e.toNat else 1 / Binary64.power 10 (-e).toNat

/-- Rounds to a number of decimal places. -/
def round (args : Arguments) (x : Float) : Option Json := do
  let method ← optional Json.str? "common" args "method"
  let places ← optional int? 0 args "precision"
  let factor := if places = 0 then 1 else powerOfTen places
  match method with
  | "common" => return ofFloat ((factor * x).round / factor)
  | "ceil" => return ofFloat ((factor * x).ceil / factor)
  | "floor" => return ofFloat ((factor * x).floor / factor)
  | _ => none

/-- The distance from zero. -/
def abs : Number → Option Json
  | .int n => if n = Word.least 64 then none else some (.int n.natAbs)
  | .float x => some (.num (.float x.abs))

/-- The ending of a counted noun: the singular one if the count is one. -/
def pluralize (args : Arguments) (x : Float) : Option Json := do
  let singular ← optional Json.str? "" args "singular"
  let plural ← optional Json.str? "s" args "plural"
  return .str (if 2.220446049250313e-16 < (x.abs - 1).abs then plural else singular)

/-- A count of bytes in the greatest unit that it fills, with two decimals. -/
def fileSize (binary : Bool) (bytes : Nat) : String :=
  let units := if binary then ["B", "KiB", "MiB", "GiB", "TiB", "PiB", "EiB"]
    else ["B", "kB", "MB", "GB", "TB", "PB", "EB"]
  let rank := ((List.range 6).filter fun i => Nat.pow 1024 (i + 1) ≤ bytes).length
  let scale := Nat.pow 1024 rank
  let whole := bytes / scale
  let rest := bytes % scale
  let unit := units.getD rank ""
  if rest = 0 then Decimal.intText whole ++ " " ++ unit
  else
    let doubled := 200 * bytes
    let low := doubled / scale / 2
    -- a remainder of exactly one half goes to the even number
    let remainder := doubled - 2 * low * scale
    let hundredths :=
      if scale < remainder || (remainder = scale && low % 2 = 1) then low + 1 else low
    Decimal.intText (hundredths / 100 : Nat) ++ "."
      ++ CivilTime.padded '0' 2 (hundredths % 100) ++ " " ++ unit

/-- Filters on numbers. -/
def onNumber? (name : String) (n : Number) (args : Arguments) : Option (Option Json) :=
  match name with
  | "abs" => some (abs n)
  | "round" => some (round args n.toFloat)
  | "pluralize" => some (pluralize args n.toFloat)
  | "filesizeformat" => some do
    let bytes ← nat? (.num n)
    let binary ← optional Json.bool? false args "binary"
    return .str (fileSize binary bytes)
  | _ => none

/-- Filters on lists. -/
def onList? (name : String) (items : List Json) (args : Arguments) : Option (Option Json) :=
  match name with
  | "first" => some (some (items.head?.getD (.str "")))
  | "last" => some (some (items.getLast?.getD (.str "")))
  | "nth" => some do
    let n ← required nat? args "n"
    return (items[n]?).getD (.str "")
  | "join" => some do
    let sep ← optional Json.str? "" args "sep"
    return .str (sep.intercalate (items.map Json.display))
  | "sort" => some do
    let path ← optional Json.str? "" args "attribute"
    let sorted ← Items.sort? path items
    return .arr sorted
  | "unique" => some do
    let caseSensitive ← optional Json.bool? false args "case_sensitive"
    let path ← optional Json.str? "" args "attribute"
    let kept ← Items.unique? path caseSensitive items
    return .arr kept
  | "group_by" => some do
    let path ← required Json.str? args "attribute"
    return .obj (Items.groupBy path items)
  | "filter" => some do
    let path ← required Json.str? args "attribute"
    return .arr (Items.keep path ((args.get? "value").getD .null) items)
  | "map" => some do
    let path ← required Json.str? args "attribute"
    return .arr (Items.values path items)
  | "slice" => some do
    let whole (v : Json) : Option Int := (float? v).map Binary64.toInt64
    let start ← optional whole 0 args "start"
    let finish ← optional whole items.length args "end"
    return .arr (Items.slice start finish items)
  | "concat" => some do
    let more ← required some args "with"
    return .arr (items ++ match more with
      | .arr others => others
      | v => [v])
  | _ => none

/-- The number of elements or characters. -/
def length : Json → Option Json
  | .arr items => some (.int items.length)
  | .obj members => some (.int members.length)
  | .str s => some (.int s.length)
  | _ => none

/-- The elements or characters in reverse order. -/
def reverse : Json → Option Json
  | .arr items => some (.arr items.reverse)
  | .str s => some (.str (String.ofList s.toList.reverse))
  | _ => none

/-- A date by a pattern. -/
def date (args : Arguments) (v : Json) : Option Json := do
  let pattern ← optional Json.str? "%Y-%m-%d" args "format"
  let time ← match v with
    | .num n => n.toInt64?.bind fun seconds => CivilTime.ofSeconds? seconds 0 none
    | .str s => CivilTime.read? s
    | _ => none
  let text ← time.layout? pattern.toList
  return .str text

/-- The member of an object under a key. -/
def get (args : Arguments) (v : Json) : Option Json := do
  let key ← required Json.str? args "key"
  let members ← v.obj?
  match members.get? key with
  | some found => some found
  | none => args.get? "default"

/-- Filters on values of any kind. -/
def onAny? (name : String) (v : Json) (args : Arguments) : Option (Option Json) :=
  match name with
  | "length" => some (length v)
  | "reverse" => some (reverse v)
  | "date" => some (date args v)
  | "json_encode" => some do
    let pretty ← optional Json.bool? false args "pretty"
    return .str (if pretty then v.pretty else v.compact)
  | "as_str" => some (some (.str v.display))
  | "get" => some (get args v)
  | "int" => some (toInt args v)
  | "float" => some (toFloat args v)
  | _ => none

/-- Applies the filter of a name to a value. -/
def run? (name : String) (v : Json) (args : Arguments) : Option Json :=
  match onAny? name v args with
  | some result => result
  -- a filter that is for every kind of value comes first; the others depend on the kind
  | none =>
    match v with
    | .str s =>
      match plainText? name with
      | some f => some (.str (String.ofList (f s.toList)))
      | none => (onText? name s args).join
    | .num n => (onNumber? name n args).join
    | .arr items => (onList? name items args).join
    | _ => none

end ItemComposition.Interpolation.Filter
