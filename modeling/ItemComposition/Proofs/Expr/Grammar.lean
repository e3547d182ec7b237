import ItemComposition.Expr.Parser

/-!
# The grammar of expressions

Which tokens stand for which tree, stratified by how tightly phrases bind and without any regard
to how they are read. The six levels of infix operators are phrases of their own, the loosest is
level `1`; level `7` holds the operands of all of them.

## Key results

- `mem_operators`: the operators of a level are those of one precedence
- `Derives.binary_of_le`: a phrase of a tighter level is one of every looser level
- `Derives.exists_head`: what a phrase may begin with
-/

namespace ItemComposition.Expr

namespace Grammar

/-- The kinds of phrase. -/
inductive Phrase where
  | expression
  /-- An infix expression of a level, `1` loosest. -/
  | binary (level : Nat)
  | unary
  /-- A primary expression with its accesses. -/
  | chain
  | primary
  /-- The items of an array literal, at least one. -/
  | items
  /-- The entries of an object literal, at least one. -/
  | entries

/-- What a phrase of a kind stands for. -/
abbrev Phrase.Tree : Phrase → Type
  | items => List Expr
  | entries => List (String × Expr)
  | _ => Expr

/-- The infix operators of a level. -/
def operators : Nat → List (Token × BinaryOp)
  | 1 => [(.or, .or)]
  | 2 => [(.and, .and)]
  | 3 => [(.eq, .eq), (.notEq, .notEq)]
  | 4 => [(.less, .less), (.lessEq, .lessEq), (.greater, .greater), (.greaterEq, .greaterEq),
      (.inWord, .contains)]
  | 5 => [(.plus, .add), (.minus, .sub)]
  | 6 => [(.star, .mul), (.slash, .div), (.percent, .rem)]
  | _ => []

/-- The tokens of a phrase and what it stands for. -/
inductive Derives : (p : Phrase) → List Token → p.Tree → Prop where
  | plain {ts e} : Derives (.binary 1) ts e → Derives .expression ts e
  | conditional {cs as bs c a b} :
      Derives (.binary 1) cs c → Derives .expression as a → Derives .expression bs b →
      Derives .expression (cs ++ .question :: (as ++ .colon :: bs)) (.conditional c a b)
  | tighter {level ts e} :
      1 ≤ level → level ≤ 6 → Derives (.binary (level + 1)) ts e → Derives (.binary level) ts e
  | operator {level t op ls rs l r} :
      (t, op) ∈ operators level → Derives (.binary level) ls l →
      Derives (.binary (level + 1)) rs r → Derives (.binary level) (ls ++ t :: rs) (.binary op l r)
  | operand {ts e} : Derives .unary ts e → Derives (.binary 7) ts e
  | not {ts e} : Derives .unary ts e → Derives .unary (.not :: ts) (.unary .not e)
  | negate {ts e} : Derives .unary ts e → Derives .unary (.minus :: ts) (.unary .negate e)
  | chain {ts e} : Derives .chain ts e → Derives .unary ts e
  | primary {ts e} : Derives .primary ts e → Derives .chain ts e
  | field {ts e name} :
      Derives .chain ts e → Derives .chain (ts ++ [.dot, .ident name]) (.member e name)
  | index {ts ks e k} :
      Derives .chain ts e → Derives .expression ks k →
      Derives .chain (ts ++ .bracketOpen :: (ks ++ [.bracketClose])) (.index e k)
  | number {x} : Derives .primary [.number x] (.literal (Json.ofFloat x))
  | text {s} : Derives .primary [.str s] (.literal (.str s))
  | trueWord : Derives .primary [.trueWord] (.literal (.bool true))
  | falseWord : Derives .primary [.falseWord] (.literal (.bool false))
  | nullWord : Derives .primary [.nullWord] (.literal .null)
  | ident {name} : Derives .primary [.ident name] (.ident name)
  | parens {ts e} :
      Derives .expression ts e → Derives .primary (.parenOpen :: (ts ++ [.parenClose])) e
  | emptyArray : Derives .primary [.bracketOpen, .bracketClose] (.array [])
  | array {ts es} :
      Derives .items ts es → Derives .primary (.bracketOpen :: (ts ++ [.bracketClose])) (.array es)
  | emptyObject : Derives .primary [.braceOpen, .braceClose] (.object [])
  | object {ts es} :
      Derives .entries ts es → Derives .primary (.braceOpen :: (ts ++ [.braceClose])) (.object es)
  | lastItem {ts e} : Derives .expression ts e → Derives .items ts [e]
  | item {ts us e es} :
      Derives .expression ts e → Derives .items us es →
      Derives .items (ts ++ .comma :: us) (e :: es)
  | lastEntry {key name ts e} :
      key = .str name ∨ key = .ident name → Derives .expression ts e →
      Derives .entries (key :: .colon :: ts) [(name, e)]
  | entry {key name ts us e es} :
      key = .str name ∨ key = .ident name → Derives .expression ts e → Derives .entries us es →
      Derives .entries (key :: .colon :: (ts ++ .comma :: us)) ((name, e) :: es)

/-! ## Levels -/

theorem precedence_le (op : BinaryOp) : 1 ≤ op.precedence ∧ op.precedence ≤ 6 := by
  cases op <;> decide

/-- The operators of a level are the tokens whose operator has that precedence. -/
theorem mem_operators {level : Nat} {t : Token} {op : BinaryOp} :
    (t, op) ∈ operators level ↔ BinaryOp.ofToken? t = some op ∧ op.precedence = level := by
  constructor
  · intro h
    unfold operators at h
    split at h <;> simp only [List.mem_cons, List.not_mem_nil, or_false, Prod.mk.injEq] at h
    · obtain ⟨rfl, rfl⟩ := h
      exact ⟨rfl, rfl⟩
    · obtain ⟨rfl, rfl⟩ := h
      exact ⟨rfl, rfl⟩
    · obtain ⟨rfl, rfl⟩ | ⟨rfl, rfl⟩ := h <;> exact ⟨rfl, rfl⟩
    · obtain ⟨rfl, rfl⟩ | ⟨rfl, rfl⟩ | ⟨rfl, rfl⟩ | ⟨rfl, rfl⟩ | ⟨rfl, rfl⟩ := h <;>
        exact ⟨rfl, rfl⟩
    · obtain ⟨rfl, rfl⟩ | ⟨rfl, rfl⟩ := h <;> exact ⟨rfl, rfl⟩
    · obtain ⟨rfl, rfl⟩ | ⟨rfl, rfl⟩ | ⟨rfl, rfl⟩ := h <;> exact ⟨rfl, rfl⟩
  · rintro ⟨h, rfl⟩
    -- the other direction goes by the token: each has one operator, and that stands at its own
    -- level
    cases t <;> simp only [BinaryOp.ofToken?, Option.some.injEq, reduceCtorEq] at h
    all_goals
      subst h
      decide

/-- A phrase of a tighter level is one of every looser level. -/
theorem Derives.binary_of_le {n m : Nat} {ts : List Token} {e : Expr}
    (h : Derives (.binary m) ts e) (pos : 1 ≤ n) (le : n ≤ m) (top : m ≤ 7) :
    Derives (.binary n) ts e := by
  -- one rule for each level in between
  obtain ⟨k, rfl⟩ := Nat.exists_eq_add_of_le le
  induction k with
  | zero => exact h
  | succ k ih => exact ih (.tighter (by omega) (by omega) h) (by omega) (by omega)

/-! ## First tokens -/

/-- A phrase has a first token. It closes no list, and it is no prefix operator if it is the first
of an access chain. -/
theorem Derives.exists_head {p : Phrase} {ts : List Token} {e : p.Tree} (h : Derives p ts e) :
    ∃ t us, ts = t :: us ∧ t ≠ .bracketClose ∧ t ≠ .braceClose ∧
      (p = .chain ∨ p = .primary → t ≠ .not ∧ t ≠ .minus) := by
  -- the first token is that of the first part, down to a rule that begins with a token
  induction h with
  | plain _ ih | tighter _ _ _ ih | operand _ ih | lastItem _ ih =>
    obtain ⟨t, us, rfl, h₁, h₂, -⟩ := ih
    exact ⟨t, us, rfl, h₁, h₂, by simp⟩
  | conditional _ _ _ ih | operator _ _ _ ih | item _ _ ih =>
    obtain ⟨t, us, rfl, h₁, h₂, -⟩ := ih
    exact ⟨t, _, rfl, h₁, h₂, by simp⟩
  | chain _ ih =>
    obtain ⟨t, us, rfl, h₁, h₂, -⟩ := ih
    exact ⟨t, us, rfl, h₁, h₂, by simp⟩
  | primary _ ih =>
    obtain ⟨t, us, rfl, h₁, h₂, h₃⟩ := ih
    exact ⟨t, us, rfl, h₁, h₂, fun _ => h₃ (.inr rfl)⟩
  | field _ ih | index _ _ ih =>
    obtain ⟨t, us, rfl, h₁, h₂, h₃⟩ := ih
    exact ⟨t, _, rfl, h₁, h₂, fun _ => h₃ (.inl rfl)⟩
  | lastEntry key | entry key =>
    obtain rfl | rfl := key <;> exact ⟨_, _, rfl, by simp, by simp, by simp⟩
  | _ => exact ⟨_, _, rfl, by simp, by simp, by simp⟩

end Grammar

end ItemComposition.Expr
