import ItemComposition.Dict

/-!
# Placeholders of environment variables

A placeholder is a variable's name between `${` and `}`. `Placeholder.pieces` splits a text, and
`expand?` puts the values in; what has been put in is not looked at again.
-/

namespace ItemComposition.Placeholder

/-- A character, or a variable to be put in. -/
inductive Piece where
  | char (c : Char)
  | variable (name : String)
  deriving DecidableEq, Repr

/-- The name of a placeholder that starts here, and what follows it. -/
def name? : List Char → Option (List Char × List Char)
  | '$' :: '\x7b' :: rest =>
    match rest.takeWhile (· ≠ '\x7d'), rest.dropWhile (· ≠ '\x7d') with
    | [], _ => none
    | name, _ :: after => some (name, after)
    | _, [] => none
  | _ => none

theorem length_lt_of_name? {cs name after : List Char} (h : name? cs = some (name, after)) :
    after.length < cs.length := by
  unfold name? at h
  split at h
  · rename_i rest
    have := (List.dropWhile_suffix (l := rest) (· ≠ '\x7d')).length_le
    split at h <;> simp_all
    omega
  · simp at h

/-- Splits a text into characters and placeholders. -/
def pieces (cs : List Char) : List Piece :=
  match h : name? cs with
  | some (name, after) =>
    have := length_lt_of_name? h
    .variable (String.ofList name) :: pieces after
  | none =>
    match cs with
    | [] => []
    | c :: rest => .char c :: pieces rest
termination_by cs.length

/-- The variables in a text, in order. -/
def names (cs : List Char) : List String :=
  (pieces cs).filterMap fun
    | .variable name => some name
    | .char _ => none

/-- Puts in the values of variables; fails with the first that has none. -/
def fill (environment : Dict String) : List Piece → Except String (List Char)
  | [] => .ok []
  | .char c :: rest =>
    match fill environment rest with
    | .ok cs => .ok (c :: cs)
    | .error name => .error name
  | .variable name :: rest =>
    match environment.get? name with
    | none => .error name
    | some v =>
      match fill environment rest with
      | .ok cs => .ok (v.toList ++ cs)
      | .error name => .error name

/-- A text with the values of variables put in. -/
def expand (environment : Dict String) (text : String) : Except String String :=
  match fill environment (pieces text.toList) with
  | .ok cs => .ok (String.ofList cs)
  | .error name => .error name

end ItemComposition.Placeholder
