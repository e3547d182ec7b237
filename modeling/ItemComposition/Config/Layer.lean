import ItemComposition.DataFormat
import ItemComposition.Decimal.Reader
import ItemComposition.Decimal.Text
import ItemComposition.Text.Letters
import ItemComposition.Text.Reader
import ItemComposition.Toml.Value

/-!
# Layers of settings

Settings come in layers: a later layer changes what it names and leaves the rest as it was. A
name is a path of keys and list positions. A table that is put over a table is merged with it key
by key; anything else replaces what was there.

A setting is read as what is expected of it: numbers, truth values and texts stand for each other
where they can.

## Key results

- `Setting.merge_text`, `Setting.get?_atKey_self`, `Setting.get?_atKey_of_ne`: what a layer
  changes, and what it leaves
-/

namespace ItemComposition

/-- A value in a layer. -/
inductive Setting where
  | absent
  | bool (b : Bool)
  | int (n : Int)
  | float (x : Float)
  | text (s : String)
  | list (items : List Setting)
  | table (members : List (String × Setting))

namespace Setting

/-! ## Merging -/

/-- Changes the value of a key, which is absent before it is first set. -/
def alterKey (key : String) (change : Setting → Setting) :
    List (String × Setting) → List (String × Setting)
  | [] => [(key, change absent)]
  | (k, v) :: rest =>
    if k = key then (k, change v) :: rest else (k, v) :: alterKey key change rest

/-- Changes what a key of a table stands for. What is no table becomes one. -/
def atKey (key : String) (change : Setting → Setting) : Setting → Setting
  | table members => table (alterKey key change members)
  | _ => table [(key, change absent)]

/-- Changes what stands at a position of a list, counted from its end when it is negative. A list
that is too short is filled up. -/
def alterPosition (position : Int) (change : Setting → Setting) (items : List Setting) :
    List Setting :=
  match position with
  | .ofNat n =>
    (items ++ List.replicate (n + 1 - items.length) absent).modify n change
  | .negSucc n =>
    if n < items.length then items.modify (items.length - (n + 1)) change
    else change absent :: List.replicate (n - items.length) absent ++ items

/-- Changes what stands at a position of a list. What is no list becomes one. -/
def atPosition (position : Int) (change : Setting → Setting) : Setting → Setting
  | list items => list (alterPosition position change items)
  | _ => list (alterPosition position change [])

mutual

/-- Puts a value over another: tables are merged, all else is replaced. -/
def merge (upper : Setting) (under : Setting) : Setting :=
  match upper with
  | table members =>
    mergeMembers members (match under with
      | absent => table []
      | v => v)
  | v => v

/-- Puts values over those of the same keys. -/
def mergeMembers : List (String × Setting) → Setting → Setting
  | [], under => under
  | (key, v) :: rest, under => mergeMembers rest (atKey key (merge v) under)

end

/-- The value of a key in a table. -/
def get? (key : String) : Setting → Option Setting
  | table members => (members.find? (·.1 = key)).map Prod.snd
  | _ => none

theorem merge_text (s : String) (under : Setting) : merge (text s) under = text s := by
  simp [merge]

theorem find?_alterKey (key other : String) (change : Setting → Setting)
    (members : List (String × Setting)) :
    ((alterKey key change members).find? (·.1 = other)).map Prod.snd =
      if other = key then
        some (change (((members.find? (·.1 = key)).map Prod.snd).getD absent))
      else (members.find? (·.1 = other)).map Prod.snd := by
  induction members with
  | nil =>
    by_cases h : other = key
    · simp [alterKey, h]
    · simp [alterKey, h, Ne.symm h]
  | cons m rest ih =>
    unfold alterKey
    by_cases hk : m.1 = key
    · by_cases h : other = key
      · simp [hk, h]
      · simp [hk, h, Ne.symm h]
    · by_cases ho : m.1 = other
      · have h : other ≠ key := fun e => hk (ho.trans e)
        simp [ho, h]
      · simp [hk, ho, ih]

/-- After a key of a table is changed, it stands for the changed value. -/
theorem get?_atKey_self (key : String) (change : Setting → Setting)
    (members : List (String × Setting)) :
    get? key (atKey key change (table members)) =
      some (change ((get? key (table members)).getD absent)) := by
  simp [atKey, get?, find?_alterKey]

/-- A change of one key leaves the others. -/
theorem get?_atKey_of_ne {key other : String} (h : other ≠ key) (change : Setting → Setting)
    (members : List (String × Setting)) :
    get? other (atKey key change (table members)) = get? other (table members) := by
  simp [atKey, get?, find?_alterKey, h]

/-! ## Paths -/

/-- A step from a value to a part of it. -/
inductive Step where
  | key (name : String)
  | position (n : Int)
  deriving DecidableEq, Repr

/-- Changes what a step leads to. -/
def at_ (step : Step) (change : Setting → Setting) : Setting → Setting :=
  match step with
  | .key name => atKey name change
  | .position n => atPosition n change

/-- Characters of keys in a path. -/
def isKeyChar (c : Char) : Bool := c.isAlphanum || c = '_' || c = '-'

/-- One step of a path: a key after a dot, or a position in brackets. -/
def step : Reader Step
  | '.' :: rest => (Reader.some1 isKeyChar rest).map fun (name, rest) =>
      (.key (String.ofList name), rest)
  | '[' :: rest =>
    match Reader.upTo [']'] rest with
    | none => none
    | some (inside, rest) =>
      let digits := ((inside.dropWhile (· = ' ')).reverse.dropWhile (· = ' ')).reverse
      -- a sign in front is refused, though the number could be read with it
      if digits.head? = some '+' then none
      else (Decimal.readInt? 10 digits).map (.position ·, rest)
  | _ => none

/-- The steps of a written path. A text that is no path is a key as a whole. -/
def stepsOf (path : String) : List Step :=
  let cs := path.toList
  match Reader.some1 isKeyChar cs with
  | none => [.key path]
  | some (name, rest) =>
    match Reader.many step rest with
    | (steps, []) => .key (String.ofList name) :: steps
    | _ => [.key path]

/-- Puts a value over what a path leads to. -/
def put (path : String) (v : Setting) (under : Setting) : Setting :=
  (stepsOf path).foldr at_ (merge v) under

/-- Puts the values of a layer over settings, each under its path. -/
def putAll (layer : List (String × Setting)) (under : Setting) : Setting :=
  layer.foldl (fun settings e => put e.1 e.2 settings) under

/-! ## From documents -/

mutual

/-- A value of a document as a setting; dates and times are texts. -/
def ofToml : Toml.Value → Setting
  | .text s | .moment s => text s
  | .int n => int n
  | .float x => float x
  | .bool b => bool b
  | .list items => list (ofTomlItems items)
  | .table members => table (ofTomlMembers members)

/-- Values of a document as settings. -/
def ofTomlItems : List Toml.Value → List Setting
  | [] => []
  | v :: rest => ofToml v :: ofTomlItems rest

/-- The members of a table of a document as settings. -/
def ofTomlMembers : List (String × Toml.Value) → List (String × Setting)
  | [] => []
  | (key, v) :: rest => (key, ofToml v) :: ofTomlMembers rest

end

/-! ## Reading -/

/-- Words for truth values. -/
def wordBool? (s : String) : Option Bool :=
  let word := Text.lower s
  if ["true", "on", "yes"].contains word then some true
  else if ["false", "off", "no"].contains word then some false
  else none

/-- A whole number without a minus. -/
def wordNat? (s : String) : Option Nat :=
  match s.toList with
  | '+' :: digits => Decimal.readDigits? 10 digits
  | digits => Decimal.readDigits? 10 digits

/-- A number in floating point as a whole number: the nearest one that fits. -/
def roundedNat (x : Float) : Nat :=
  match Binary64.round? x with
  | some n => n.toNat
  | none => if 0 < x then Word.size 64 - 1 else 0

/-- A setting as a number of 64 bits. -/
def word? : Setting → Option Nat
  | int n => if 0 ≤ n then some n.toNat else none
  | bool b => some b.toNat
  | float x => some (min (roundedNat x) (Word.size 64 - 1))
  | text s =>
    match wordBool? s with
    | some b => some b.toNat
    | none => (wordNat? s).filter (· < Word.size 64)
  | _ => none

/-- A setting as a text. -/
def text? : Setting → Option String
  | text s => some s
  | bool b => some (if b then "true" else "false")
  | int n => some (Decimal.intText n)
  | float x => some (Decimal.Style.plain.float x)
  | _ => none

/-- A setting as a truth value. -/
def bool? : Setting → Option Bool
  | bool b => some b
  | int n => some (n ≠ 0)
  | float x => some (x != 0)
  | text s => if s = "1" then some true else if s = "0" then some false else wordBool? s
  | _ => none

/-- A setting as a number in floating point. -/
def float? : Setting → Option Float
  | float x => some x
  | int n => some (Binary64.ofInt n)
  | bool b => some (if b then 1 else 0)
  | text s =>
    match wordBool? s with
    | some b => some (if b then 1 else 0)
    | none => Decimal.readFloat? s.toList
  | _ => none

/-- A setting as one of several words; a table with one key stands for the key. -/
def variant? : Setting → Option String
  | text s => some s
  | table [(key, _)] => some key
  | _ => none

/-- The fields of a record: a table, or the fields in order. -/
def record? (names : List String) : Setting → Option (List (String × Setting))
  | table members => some (members.filter fun m => names.contains m.1)
  | list items => some (names.zip items)
  | _ => none

mutual

/-- A setting as JSON; a number that is not finite is none. -/
def toJson? : Setting → Option Json
  | absent => some .null
  | bool b => some (.bool b)
  | int n => some (.int n)
  | float x => if x.isFinite then some (.num (.float x)) else none
  | text s => some (.str s)
  | list items => (toJsonItems? items).map .arr
  | table members => (toJsonMembers? members).map Json.object

/-- Settings as JSON. -/
def toJsonItems? : List Setting → Option (List Json)
  | [] => some []
  | v :: rest => do return (← toJson? v) :: (← toJsonItems? rest)

/-- The members of a table as JSON. -/
def toJsonMembers? : List (String × Setting) → Option (List (String × Json))
  | [] => some []
  | (key, v) :: rest => do return (key, ← toJson? v) :: (← toJsonMembers? rest)

end

/-- Settings as data. -/
def format : DataFormat Setting where
  text? := text?
  bool? := bool?
  nat? := fun bound v => (word? v).filter (· < bound)
  float? := float?
  variant? := variant?
  list? := fun
    | list items => some items
    | _ => none
  entries? := fun
    | table members => some members
    | _ => none
  record? := record?
  optional? := fun
    | absent => some none
    | v => some (some v)
  value? := toJson?

end Setting

end ItemComposition
