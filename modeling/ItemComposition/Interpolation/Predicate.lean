import ItemComposition.Interpolation.Filter.Words
import ItemComposition.Interpolation.Value

/-!
# The text interpolation language: tests of variables

`Predicate.holds?` decides `x is name(args)`. Except for the two that ask whether a variable
exists, a test of a variable that does not exist fails.
-/

namespace ItemComposition.Interpolation.Predicate

/-- The remainder of a division by a number. -/
def remainder (v : Json) (divisor : Float) : Option Float :=
  v.num?.map fun n => Binary64.remainder n.toFloat divisor

/-- Tests of a value without arguments. -/
def unary? (name : String) (v : Json) : Option Bool :=
  match name with
  | "string" => some (v.kind = .string)
  | "number" => some (v.kind = .number)
  | "odd" => (remainder v 2).map fun r => !(r == 0)
  | "even" => (remainder v 2).map fun r => r == 0
  | "iterable" => some (v.kind = .array || v.kind = .object)
  | "object" => some (v.kind = .object)
  | _ => none

/-- Tests of a value with one argument. -/
def binary? (name : String) (v arg : Json) : Option Bool :=
  match name, v, arg with
  | "divisibleby", v, .num n => (remainder v n.toFloat).map fun r => r == 0
  | "starting_with", .str s, .str part => some (part.toList.isPrefixOf s.toList)
  | "ending_with", .str s, .str part => some (part.toList.isSuffixOf s.toList)
  | "containing", .str s, .str part => some (Words.isInside part s)
  | "containing", .arr items, part => some (Json.hasElement items part)
  | "containing", .obj members, .str key => some (Dict.contains members key)
  | _, _, _ => none

/-- Decides a test of a variable, which may not exist. -/
def holds? (name : String) (subject : Option Json) (args : List Json) : Option Bool :=
  match name, args, subject with
  | "defined", [], subject => some subject.isSome
  | "undefined", [], subject => some subject.isNone
  | name, [], some v => unary? name v
  | name, [arg], some v => binary? name v arg
  | _, _, _ => none

end ItemComposition.Interpolation.Predicate
