import ItemComposition.Interpolation.Filter
import ItemComposition.Interpolation.Predicate
import ItemComposition.Interpolation.Syntax

/-!
# The text interpolation language: values of phrases

A phrase is evaluated in three ways: for its value, for its truth value, and as a number in
arithmetic. An evaluation that fails has no result. Arithmetic on whole numbers is exact and
fails on overflow; a quotient that is not a number is the text `NaN`.
-/

namespace ItemComposition.Interpolation

/-- What the evaluation of a phrase asks its surroundings for. -/
structure Surroundings where
  /-- The value of a variable with steps. -/
  lookup : Path → Option Json
  /-- The text of a macro with arguments. -/
  expand : String → String → Dict Json → Option String
  /-- The environment variables. -/
  environment : Dict String

/-- A number from a double; none for infinities and not-a-number. -/
def finiteNumber (x : Float) : Option Number := if x.isFinite then some (.float x) else none

/-- A whole number if it has a property. -/
def wholeIf (p : Int → Bool) (n : Int) : Option (Option Number) :=
  if p n then some (some (.int n)) else none

/-- The remainder of whole numbers, with the sign of the dividend. -/
def wholeRemainder (a b : Int) : Option (Option Number) :=
  if b = 0 then none else some (some (.int (Int.tmod a b)))

/-- Applies an operator to numbers. The outer option is failure, the inner one not-a-number. -/
def MathOp.apply (op : MathOp) (a b : Number) : Option (Option Number) :=
  let inexact (f : Float → Float → Float) : Option (Option Number) :=
    some (finiteNumber (f a.toFloat b.toFloat))
  -- whole numbers are computed in the word that both of them fit into, and as doubles otherwise
  let exact (f : Int → Int → Int) (g : Float → Float → Float) : Option (Option Number) :=
    match a, b with
    | .int x, .int y =>
      if x ≤ Word.greatest 64 && y ≤ Word.greatest 64 then wholeIf (Word.isSigned 64) (f x y)
      else if 0 ≤ x && 0 ≤ y then wholeIf (Word.isUnsigned 64) (f x y)
      else inexact g
    | _, _ => inexact g
  match op with
  | .add => exact (· + ·) (· + ·)
  | .sub => exact (· - ·) (· - ·)
  | .mul => exact (· * ·) (· * ·)
  | .div =>
    let q := a.toFloat / b.toFloat
    -- a quotient that is whole is written as a whole number
    if q.isFinite && Binary64.isWhole q then some (some (.int (Binary64.toInt64 q)))
    else some (finiteNumber q)
  | .rem =>
    match a, b with
    | .int x, .int y =>
      if (x ≤ Word.greatest 64 && y ≤ Word.greatest 64) || (0 ≤ x && 0 ≤ y) then wholeRemainder x y
      else inexact Binary64.remainder
    | _, _ => inexact Binary64.remainder

/-- Whether an operator compares sizes, and how. -/
def LogicOp.order? : LogicOp → Option (Float → Float → Bool)
  | .less => some fun a b => a < b
  | .lessEq => some fun a b => a ≤ b
  | .greater => some fun a b => b < a
  | .greaterEq => some fun a b => b ≤ a
  | _ => none

/-- Equality of values: numbers by their size. A number and another kind are neither equal nor
unequal. -/
def LogicOp.equate (negated : Bool) : Json → Json → Bool
  | .num a, .num b => (a.toFloat == b.toFloat) != negated
  | .num _, _ => false
  | _, .num _ => false
  | a, b => a.same b != negated

/-- Whether a value is a member of another. -/
def isMember : Json → Json → Option Bool
  | v, .arr items => some (Json.hasElement items v)
  | .str part, .str s => some (Words.isInside part s)
  | .str key, .obj members => some (Dict.contains members key)
  | _, _ => none

/-- The text of a part of a concatenation. -/
def partText : Json → Option String
  | .str s => some s
  | .num n => some n.text
  | _ => none

/-- Counts from a start up to an end, by steps. -/
def countUp (start finish step : Nat) : List Json :=
  if step = 0 then []
  else (List.range ((finish - start + step - 1) / step)).map fun i => Json.int (start + i * step : Nat)

/-- The functions. -/
def callFunction (environment : Dict String) (name : String) (args : Dict Json) : Option Json :=
  match name with
  | "range" => do
    let start ← Filter.optional Filter.nat? 0 args "start"
    let step ← Filter.optional Filter.nat? 1 args "step_by"
    let finish ← Filter.required Filter.nat? args "end"
    -- an empty range is fine, one that would never end is not
    if finish < start || (step = 0 && start < finish) then none
    else return .arr (countUp start finish step)
  | "get_env" => do
    let key ← Filter.required Json.str? args "name"
    match environment.get? key with
    | some v => return .str v
    | none => args.get? "default"
  | _ => none

/-- The filter that supplies a value in place of a missing one, if it comes first. -/
def isDefault (f : Call) : Bool := f.name = "default"

/-- Ends an evaluation: the filters, and the negation. -/
def conclude (filters : Json → Option Json) (negated : Bool) (start : Json) : Option Json :=
  (filters start).map fun v => if negated then .bool (!v.truthy) else v

/-- The value of a variable that may be missing. `fallback` is the value for a missing one, if
the phrase names one; without it, a missing variable is false where it is negated. -/
def variableValue (found : Option Json) (fallback : Option (Option Json))
    (filters : Json → Option Json) (negated : Bool) : Option Json :=
  match found, fallback with
  | some .null, some v => v.bind (conclude filters negated)
  | some v, _ => conclude filters negated v
  | none, some v => v.bind (conclude filters negated)
  | none, none => if negated then some (.bool true) else none

/-- The truth value of a text or of a function's result. -/
def looseTruth (isFunction : Bool) (v : Json) : Option Bool :=
  if isFunction then v.bool? else some v.truthy

variable (env : Surroundings)

mutual

/-- The value of a text, a list or a call. -/
def Term.plainValue : Term → Option Json
  | .text s => some (.str s)
  | .concat parts => (partsText parts).map fun ss => .str (String.join ss)
  | .list items => (phraseValues items).map Json.arr
  | .call (.mk name args) => (argumentValues args).bind (callFunction env.environment name)
  | .macroCall scope name args =>
    (argumentValues args).bind fun given => (env.expand scope name given).map Json.str
  | _ => none

/-- The texts of the parts of a concatenation. -/
def partsText : List Term → Option (List String)
  | [] => some []
  | part :: rest => do
    let text ← match part with
      | .int n => some (Decimal.intText n)
      | .float x => some (Decimal.Style.plain.float x)
      | .path p => (env.lookup p).bind partText
      | other => other.plainValue.bind partText
    let texts ← partsText rest
    return text :: texts

/-- The truth value of a test or comparison. -/
def Term.truth : Term → Option Bool
  | .bool b => some b
  | .test negated subject name args => do
    let given ← phraseValues args
    let held ← Predicate.holds? name (env.lookup subject) given
    return held != negated
  | .within negated needle haystack => do
    let v ← needle.value
    let container ← haystack.value
    let present ← isMember v container
    return present != negated
  | .logic op lhs rhs =>
    match op with
    -- the second side is looked at only if the first one does not decide
    | .or => do
      let l ← lhs.truth
      if l then return true else rhs.truth
    | .and => do
      let l ← lhs.truth
      if l then rhs.truth else return false
    | .eq => do
      let l ← lhs.value
      let r ← rhs.value
      return LogicOp.equate false l r
    | .notEq => do
      let l ← lhs.value
      let r ← rhs.value
      return LogicOp.equate true l r
    -- an order asks for two numbers
    | op => do
      let compare ← op.order?
      let l ← lhs.amount
      let r ← rhs.amount
      match l, r with
      -- not a number compares with nothing
      | some a, some b => return compare a.toFloat b.toFloat
      | _, _ => none
  | _ => none

/-- A term as a number. -/
def Term.amount : Term → Option (Option Number)
  | .int n => some (some (.int n))
  | .float x => some (some (.float x))
  | .path p => (env.lookup p).bind fun v => v.num?.map some
  | .math op lhs rhs => do
    let l ← lhs.amount
    let r ← rhs.amount
    match l, r with
    | some a, some b => op.apply a b
    | _, _ => return none
  | _ => none

/-- The value of a phrase. -/
def Phrase.value : Phrase → Option Json
  | .mk term filters negated =>
    let pipe := conclude (pipeThrough filters) negated
    match term with
    | .path p => variableValue (env.lookup p) (fallback filters) (pipeThrough filters) negated
    | .logic op l r =>
      ((Term.logic op l r).truth).bind fun b => pipe (.bool (b != negated))
    | .test n subject name args => ((Term.test n subject name args).truth).bind fun b => pipe (.bool b)
    | .within n needle haystack => ((Term.within n needle haystack).truth).bind fun b => pipe (.bool b)
    | .bool b => pipe (.bool b)
    | .int n => pipe (.int n)
    | .float x => pipe (.num (.float x))
    | .math op l r => ((Term.math op l r).amount).bind fun
      | some n => pipe (.num n)
      -- what is not a number is written so
      | none => pipe (.str "NaN")
    | other => other.plainValue.bind pipe

/-- The truth value of a phrase. -/
def Phrase.truth : Phrase → Option Bool
  | .mk term filters negated =>
    let signed (b : Bool) : Bool := b != negated
    match term with
    | .path p =>
      let v := variableValue (env.lookup p) (fallback filters) (pipeThrough filters) negated
      some (((v.map Json.truthy).getD false))
    | .int n => some (signed (n ≠ 0))
    | .float x => some (signed (!(x == 0)))
    | .math op l r => ((Term.math op l r).amount).map fun
      | some n => signed (!(n.toFloat == 0))
      | none => signed false
    -- a call may stand for a number, which counts as true unless it is zero
    | .call f => ((Term.call f).plainValue.bind (looseTruth true)).map signed
    | .text s => some (signed (s ≠ ""))
    | .concat parts => ((Term.concat parts).plainValue.bind (looseTruth false)).map signed
    | .macroCall scope name args =>
      ((Term.macroCall scope name args).plainValue.bind (looseTruth false)).map signed
    | other => other.truth.map signed

/-- A phrase as a number. -/
def Phrase.amount : Phrase → Option (Option Number)
  | .mk term [] _ =>
    match term with
    | .call f => ((Term.call f).plainValue).bind fun v => v.num?.map some
    | other => other.amount
  | .mk term filters negated =>
    let number (v : Option Json) : Option (Option Number) := v.bind fun v => v.num?.map some
    -- through filters everything becomes a value first, and must come out as a number
    let pipe := conclude (pipeThrough filters) negated
    match term with
    | .path p =>
      number (variableValue (env.lookup p) (fallback filters) (pipeThrough filters) negated)
    | .bool b => number (pipe (.bool b))
    | .int n => number (pipe (.int n))
    | .float x => number (pipe (.num (.float x)))
    | .math op l r => number (((Term.math op l r).amount).bind fun
      | some n => pipe (.num n)
      | none => pipe (.str "NaN"))
    | .test n subject name args =>
      number (((Term.test n subject name args).truth).bind fun b => pipe (.bool b))
    | other => number (other.plainValue.bind pipe)

/-- The values of list items. -/
def phraseValues : List Phrase → Option (List Json)
  | [] => some []
  | p :: rest => do
    let v ← p.value
    let vs ← phraseValues rest
    return v :: vs

/-- The values of named arguments; of two with one name the later counts. -/
def argumentValues : List (String × Phrase) → Option (Dict Json)
  | [] => some []
  | (key, p) :: rest => do
    let v ← p.value
    let vs ← argumentValues rest
    return if Dict.contains vs key then vs else vs.insert key v

/-- The value that the first filter supplies for a missing variable. -/
def fallback : List Call → Option (Option Json)
  | .mk name args :: _ =>
    if name = "default" then some ((argumentValues args).bind (·.get? "value")) else none
  | [] => none

/-- Pipes a value through filters. -/
def pipeThrough : List Call → Json → Option Json
  | [], v => some v
  | .mk name args :: rest, v =>
    if name = "safe" || name = "default" then pipeThrough rest v
    else do
      let given ← argumentValues args
      let next ← Filter.run? name v given
      pipeThrough rest next

end

end ItemComposition.Interpolation
