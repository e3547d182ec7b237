/-!
# Readers of character prefixes

A reader takes a prefix off a list of characters and returns a value with the rest, or fails. A
failing reader consumes nothing, so alternatives are tried in order on the same input.
-/

namespace ItemComposition

universe u v

/-- Takes a value off the front of the input. -/
abbrev Reader (α : Type u) : Type u := List Char → Option (α × List Char)

namespace Reader

variable {α : Type u} {β : Type v}

/-- The given characters. -/
def literal (text : List Char) : Reader Unit := fun cs =>
  if text.isPrefixOf cs then some ((), cs.drop text.length) else none

/-- The characters of the given text. -/
def word (text : String) : Reader Unit := literal text.toList

/-- One character of a class. -/
def char (p : Char → Bool) : Reader Char
  | c :: rest => if p c then some (c, rest) else none
  | [] => none

/-- The longest run of characters of a class; fails on none. -/
def some1 (p : Char → Bool) : Reader (List Char) := fun cs =>
  match cs.takeWhile p with
  | [] => none
  | run => some (run, cs.dropWhile p)

/-- The value replaced. -/
def map (f : α → β) (r : Reader α) : Reader β := fun cs =>
  match r cs with
  | some (a, rest) => some (f a, rest)
  | none => none

/-- The first reader, or the second if it fails. -/
def orElse (r s : Reader α) : Reader α := fun cs =>
  match r cs with
  | some x => some x
  | none => s cs

/-- The first reader that succeeds. -/
def oneOf (readers : List (Reader α)) : Reader α := fun cs => readers.findSome? (· cs)

/-- What the reader yields, or nothing without consuming. -/
def opt (r : Reader α) : Reader (Option α) := fun cs =>
  match r cs with
  | some (a, rest) => some (some a, rest)
  | none => some (none, cs)

/-- As many values as the reader yields. -/
def many (r : Reader α) (cs : List Char) : List α × List Char :=
  match r cs with
  | none => ([], cs)
  | some (a, rest) =>
    if _h : rest.length < cs.length then
      let (more, rest) := many r rest
      (a :: more, rest)
    else ([], cs)
termination_by cs.length

/-- The text up to the first place where a mark starts, and what follows the mark. -/
def upTo (mark : List Char) : List Char → Option (List Char × List Char)
  | [] => if mark.isEmpty then some ([], []) else none
  | c :: rest =>
    if mark.isPrefixOf (c :: rest) then some ([], (c :: rest).drop mark.length)
    else
      match upTo mark rest with
      | some (text, after) => some (c :: text, after)
      | none => none

end Reader

end ItemComposition
