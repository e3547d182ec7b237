/-!
# Results of reading a prefix

A reader for a list of characters or tokens returns what it made of a non-empty prefix together
with what is left and the fact that this is shorter. Loops and mutually recursive readers
terminate by that fact, without a bound from outside.
-/

namespace ItemComposition

universe u v w

/-- A value read from a non-empty prefix of `input`, and the rest. -/
structure Parsed {τ : Type u} (input : List τ) (α : Type v) where
  value : α
  rest : List τ
  shorter : rest.length < input.length

namespace Parsed

variable {τ : Type u} {α : Type v} {β : Type w} {input : List τ}

/-- The same rest with another value. -/
def map (f : α → β) (p : Parsed input α) : Parsed input β := ⟨f p.value, p.rest, p.shorter⟩

/-- A result for a suffix of the input as a result for the input. -/
def extend {suffix : List τ} (p : Parsed suffix α) (h : suffix.length ≤ input.length) :
    Parsed input α := ⟨p.value, p.rest, Nat.lt_of_lt_of_le p.shorter h⟩

/-- Continues with a result for the rest. -/
def andThen (p : Parsed input α) (q : Parsed p.rest β) : Parsed input β :=
  ⟨q.value, q.rest, Nat.lt_trans q.shorter p.shorter⟩

end Parsed

/-- Dropping a prefix never makes a list longer. -/
theorem length_dropWhile_le {τ : Type u} (p : τ → Bool) (l : List τ) :
    (l.dropWhile p).length ≤ l.length := (List.dropWhile_suffix p).length_le

end ItemComposition
