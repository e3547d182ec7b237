import ItemComposition.Proto.Token

/-!
# Statements of schema sources

A source is a list of statements, each a run of tokens that ends with a semicolon or with a block
of statements. Braces right after an equals sign hold a value; such a value is part of the run.
-/

namespace ItemComposition.Proto

/-- A statement: its tokens, and its block if it has one. -/
inductive Statement where
  | mk (head : List Token) (block : Option (List Statement))

namespace Statement

/-- The tokens of a statement. -/
def head : Statement → List Token
  | mk head _ => head

/-- The block of a statement. -/
def block : Statement → Option (List Statement)
  | mk _ block => block

/-- The mark that opens a block or a value. -/
def openMark : Token := .mark '\x7b'

/-- The mark that closes a block or a value. -/
def closeMark : Token := .mark '\x7d'

/-- What is being read: the statement around each open block with the statements before it, the
tokens of the statement at hand with the braces open in it, and the statements before that. All
lists but the tokens of whole statements stand in reverse. -/
structure Progress where
  around : List (List Token × List Statement)
  head : List Token
  braces : Nat
  before : List Statement

/-- Reads one more token. -/
def Progress.step (p : Progress) (t : Token) : Option Progress :=
  let more : Progress := { p with head := t :: p.head }
  if t = openMark then
    -- a brace inside braces, or after an equals sign, is part of a value
    if 0 < p.braces || p.head.head? = some (.mark '=') then
      some { more with braces := p.braces + 1 }
    -- a block has a head
    else if p.head.isEmpty then none
    else some ⟨(p.head.reverse, p.before) :: p.around, [], 0, []⟩
  else if t = closeMark then
    if 0 < p.braces then some { more with braces := p.braces - 1 }
    else
      -- a block ends where no statement is left open in it
      match p.around, p.head with
      | (head, before) :: around, [] =>
        some ⟨around, [], 0, .mk head (some p.before.reverse) :: before⟩
      | _, _ => none
  else if t = .mark ';' && p.braces = 0 then
    some { p with head := [], before := .mk p.head.reverse none :: p.before }
  else some more

/-- The statements of a source. -/
def ofTokens? (ts : List Token) : Option (List Statement) :=
  match ts.foldlM Progress.step ⟨[], [], 0, []⟩ with
  | some ⟨[], [], _, statements⟩ => some statements.reverse
  | _ => none

end Statement

end ItemComposition.Proto
