import ItemComposition.Json.Printer

/-!
# The text interpolation language: values

How a value is shown in running text, when it counts as true, and how keys lead into it.
-/

namespace ItemComposition.Json

mutual

/-- The text of a value in running text: nothing for null, and no quotes. -/
def display : Json → String
  | .null => ""
  | .bool b => if b then "true" else "false"
  | .num (.int n) => Decimal.intText n
  | .num (.float x) => Decimal.Style.plain.float x
  | .str s => s
  | .arr items => "[" ++ ", ".intercalate (displayItems items) ++ "]"
  | .obj _ => "[object]"

/-- The texts of elements in running text. -/
def displayItems : List Json → List String
  | [] => []
  | v :: rest => display v :: displayItems rest

end

/-- Whether a value counts as true: null, zero and what is empty do not. -/
def truthy : Json → Bool
  | .null => false
  | .bool b => b
  | .num (.int n) => n ≠ 0
  | .num (.float x) => !(x == 0)
  | .str s => s ≠ ""
  | .arr items => !items.isEmpty
  | .obj members => !members.isEmpty

/-- The number written by an index: digits without a leading zero. -/
def indexOf? (key : String) : Option Nat :=
  match key.toList with
  | [] => none
  | ['0'] => some 0
  | '0' :: _ => none
  | cs =>
    if cs.all Char.isDigit then
      some (cs.foldl (fun n c => n * 10 + (c.toNat - '0'.toNat)) 0)
    else none

/-- The member or element under a key. -/
def child? (v : Json) (key : String) : Option Json :=
  match v with
  | .obj members => Dict.get? members key
  | .arr items => (indexOf? key).bind (items[·]?)
  | _ => none

/-- The value that keys lead to. -/
def follow? (v : Json) (keys : List String) : Option Json := keys.foldlM child? v

/-- The keys of a dotted path; a part between double quotes is one key. -/
def dottedKeys (path : String) : List String :=
  if path = "" then [] else go [] false path.toList
where
  go (key : List Char) (quoted : Bool) : List Char → List String
    | [] => if key.isEmpty then [] else [String.ofList key.reverse]
    | c :: rest =>
      if c = '"' then go key (!quoted) rest
      else if c = '.' && !quoted then String.ofList key.reverse :: go [] false rest
      else go (c :: key) quoted rest

/-- The value at a dotted path. -/
def at? (v : Json) (path : String) : Option Json := follow? v (dottedKeys path)

/-- Whether some element equals a value. -/
def hasElement (items : List Json) (v : Json) : Bool := items.any (same v)

end ItemComposition.Json
