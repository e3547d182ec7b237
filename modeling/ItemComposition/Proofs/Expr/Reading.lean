import ItemComposition.Expr.Parser

/-!
# What the readers of expressions do

The readers carry a proof that they consume something, and the text of an error. `outcome` forgets
both: what is left is the value and the remaining tokens. Each reader is one equation on outcomes,
and nothing else about the readers is used elsewhere.

The two loops continue from a value and the tokens after it. `binaryFrom` and `accessesFrom` are
what they do in those terms alone, whatever was read before.

## Key results

- `outcome_expression`, `outcome_binary`, `outcome_unary`, `outcome_chain`, `outcome_primary`,
  `outcome_items`, `outcome_entries`: the readers
- `binaryFrom_cons`, `accessesFrom_eq`: the loops
- `ofTokens_eq_ok`: when all the tokens are an expression
-/

namespace ItemComposition.Expr.Parser

variable {α : Type} {ts : List Lexeme} (finish : Nat)

/-- The value that was read and the tokens that are left; none after an error. -/
def outcome : Result ts α → Option (α × List Lexeme)
  | .ok p => some (p.value, p.rest)
  | .error _ => none

/-- The tokens after a given one; none if they start with another. -/
def after? (token : Token) (ts : List Lexeme) : Option (List Lexeme) :=
  if peek ts = some token then some ts.tail else none

@[simp] theorem outcome_ok (p : Parsed ts α) :
    outcome (.ok p : Result ts α) = some (p.value, p.rest) := rfl

@[simp] theorem outcome_error (e : SyntaxError) : outcome (.error e : Result ts α) = none := rfl

@[simp] theorem outcome_fail (us : List Lexeme) (cause : SyntaxCause) :
    outcome (fail finish us cause : Result ts α) = none := rfl

/-- What is left is shorter than what was there. -/
theorem length_lt_of_outcome {r : Result ts α} {v : α} {rest : List Lexeme}
    (h : outcome r = some (v, rest)) : rest.length < ts.length := by
  cases r with
  | error e => cases h
  | ok p =>
    obtain ⟨rfl, rfl⟩ := Prod.mk.inj (Option.some.inj h)
    exact p.shorter

/-! ## Single tokens -/

@[simp] theorem peek_cons (t : Lexeme) (rest : List Lexeme) : peek (t :: rest) = some t.token := rfl

@[simp] theorem peek_nil : peek [] = none := rfl

theorem peek_of_token {t : Lexeme} {token : Token} (rest : List Lexeme) (h : t.token = token) :
    peek (t :: rest) = some token := congrArg some h

theorem peek_ne_of_token {t : Lexeme} {token : Token} (rest : List Lexeme) (other : Token)
    (h : t.token = token) (ne : token ≠ other) : peek (t :: rest) ≠ some other := by
  rw [peek_of_token rest h]
  exact fun hEq => ne (Option.some.inj hEq)

theorem peek_eq_some {ts : List Lexeme} {token : Token} (h : peek ts = some token) :
    ∃ t, t.token = token ∧ ts = t :: ts.tail := by
  cases ts with
  | nil => cases h
  | cons t rest => exact ⟨t, Option.some.inj h, rfl⟩

theorem after?_eq_some {ts rest : List Lexeme} {token : Token} (h : after? token ts = some rest) :
    ∃ t, t.token = token ∧ ts = t :: rest := by
  unfold after? at h
  split at h
  · rename_i hPeek
    obtain ⟨t, ht, hts⟩ := peek_eq_some hPeek
    exact ⟨t, ht, by rw [hts, Option.some.inj h]⟩
  · cases h

@[simp] theorem after?_cons_self (t : Lexeme) (rest : List Lexeme) :
    after? t.token (t :: rest) = some rest := by simp [after?]

theorem outcome_expect (token : Token) :
    outcome (expect finish token ts) = (after? token ts).map ((), ·) := by
  cases ts with
  | nil => rfl
  | cons t rest =>
    by_cases h : t.token = token <;> simp [expect, after?, h]

theorem after?_of_expect_ok {token : Token} {p : Parsed ts Unit}
    (h : expect finish token ts = .ok p) : after? token ts = some p.rest := by
  have hOutcome := @outcome_expect ts finish token
  rw [h, outcome_ok, eq_comm, Option.map_eq_some_iff] at hOutcome
  obtain ⟨rest, hAfter, hRest⟩ := hOutcome
  rw [hAfter, (Prod.mk.inj hRest).2]

theorem after?_of_expect_error {token : Token} {e : SyntaxError}
    (h : expect finish token ts = .error e) : after? token ts = none := by
  have hOutcome := @outcome_expect ts finish token
  rwa [h, outcome_error, eq_comm, Option.map_eq_none_iff] at hOutcome

/-- The key of an object entry. -/
def keyText? : Token → Option String
  | .str s | .ident s => some s
  | _ => none

theorem keyText?_eq_some {token : Token} {name : String} (h : keyText? token = some name) :
    token = .str name ∨ token = .ident name := by
  cases token <;> simp only [keyText?, Option.some.injEq, reduceCtorEq] at h
  case ident => exact .inr (congrArg _ h)
  case str => exact .inl (congrArg _ h)

theorem keyText?_of_key {token : Token} {name : String}
    (h : token = .str name ∨ token = .ident name) : keyText? token = some name := by
  rcases h with rfl | rfl <;> rfl

theorem outcome_entryKey :
    outcome (entryKey finish ts) = ((peek ts).bind keyText?).map (·, ts.tail) := by
  cases ts with
  | nil => rfl
  | cons t rest =>
    obtain ⟨token, start⟩ := t
    cases token <;> rfl

theorem outcome_expectOr (close : Token) :
    outcome (expectOr finish close ts) =
      if peek ts = some close then some (true, ts.tail)
      else (after? .comma ts).map (false, ·) := by
  cases ts with
  | nil => simp [expectOr, after?]
  | cons t rest =>
    simp only [expectOr, after?, peek_cons, Option.some.injEq, List.tail_cons]
    split
    · rfl
    · split <;> rfl

theorem expectOr_error {close : Token} {e : SyntaxError}
    (h : expectOr finish close ts = .error e) :
    peek ts ≠ some close ∧ after? .comma ts = none := by
  have hOutcome := @outcome_expectOr ts finish close
  rw [h, outcome_error] at hOutcome
  split at hOutcome
  · cases hOutcome
  · rename_i hPeek
    exact ⟨hPeek, Option.map_eq_none_iff.1 hOutcome.symm⟩

theorem expectOr_close {close : Token} {rest : List Lexeme} {hr : rest.length < ts.length}
    (h : expectOr finish close ts = .ok ⟨true, rest, hr⟩) :
    peek ts = some close ∧ ts.tail = rest := by
  have hOutcome := @outcome_expectOr ts finish close
  rw [h, outcome_ok] at hOutcome
  split at hOutcome
  · rename_i hPeek
    exact ⟨hPeek, (Prod.mk.inj (Option.some.inj hOutcome)).2.symm⟩
  · obtain ⟨r, -, hr⟩ := Option.map_eq_some_iff.1 hOutcome.symm
    cases hr

theorem expectOr_comma {close : Token} {rest : List Lexeme} {hr : rest.length < ts.length}
    (h : expectOr finish close ts = .ok ⟨false, rest, hr⟩) :
    peek ts ≠ some close ∧ after? .comma ts = some rest := by
  have hOutcome := @outcome_expectOr ts finish close
  rw [h, outcome_ok] at hOutcome
  split at hOutcome
  · cases hOutcome
  · rename_i hPeek
    obtain ⟨r, hAfter, hr⟩ := Option.map_eq_some_iff.1 hOutcome.symm
    exact ⟨hPeek, by rw [hAfter, (Prod.mk.inj hr).2]⟩

/-! ## Expressions -/

theorem outcome_expression : outcome (expression finish ts) =
    (outcome (binary finish 0 ts)).bind fun c =>
      if peek c.2 = some .question then
        (outcome (expression finish c.2.tail)).bind fun a =>
          (after? .colon a.2).bind fun rest =>
            (outcome (expression finish rest)).bind fun b =>
              some (.conditional c.1 a.1 b.1, b.2)
      else some c := by
  -- both sides do the same step by step; where the parser has an error, the outcome is none
  rw [expression]
  cases binary finish 0 ts with
  | error e => rfl
  | ok c =>
    obtain ⟨c, rest, shorter⟩ := c
    cases rest with
    | nil => rfl
    | cons t rest =>
      simp only [outcome_ok, Option.bind_some, peek_cons, Option.some.injEq, List.tail_cons]
      split
      · split
        · next h => rw [h]; rfl
        · next a h =>
          rw [h, outcome_ok, Option.bind_some]
          split
          · next h => rw [after?_of_expect_error finish h]; rfl
          · next colon h =>
            rw [after?_of_expect_ok finish h, Option.bind_some]
            split
            · next h => rw [h]; rfl
            · next h => rw [h]; rfl
      · rfl

theorem outcome_unary : outcome (unary finish ts) =
    if peek ts = some .not then
      (outcome (unary finish ts.tail)).bind fun a => some (.unary .not a.1, a.2)
    else if peek ts = some .minus then
      (outcome (unary finish ts.tail)).bind fun a => some (.unary .negate a.1, a.2)
    else outcome (chain finish ts) := by
  cases ts with
  | nil =>
    rw [unary]
    rfl
  | cons t rest =>
    rw [unary]
    simp only [peek_cons, Option.some.injEq, List.tail_cons]
    split
    · split
      · next h => rw [h]; rfl
      · next h => rw [h]; rfl
    · split
      · split
        · next h => rw [h]; rfl
        · next h => rw [h]; rfl
      · rfl

theorem outcome_primary_nil : outcome (primary finish []) = none := by
  rw [primary]
  rfl

theorem outcome_primary_cons (t : Lexeme) (rest : List Lexeme) :
    outcome (primary finish (t :: rest)) =
      match t.token with
      | .number x => some (.literal (Json.ofFloat x), rest)
      | .str s => some (.literal (.str s), rest)
      | .trueWord => some (.literal (.bool true), rest)
      | .falseWord => some (.literal (.bool false), rest)
      | .nullWord => some (.literal .null, rest)
      | .ident name => some (.ident name, rest)
      | .parenOpen =>
        (outcome (expression finish rest)).bind fun inner =>
          (after? .parenClose inner.2).bind fun rest => some (inner.1, rest)
      | .bracketOpen =>
        if peek rest = some .bracketClose then some (.array [], rest.tail)
        else (outcome (items finish rest)).bind fun p => some (.array p.1, p.2)
      | .braceOpen =>
        if peek rest = some .braceClose then some (.object [], rest.tail)
        else (outcome (entries finish rest)).bind fun p => some (.object p.1, p.2)
      | _ => none := by
  obtain ⟨token, start⟩ := t
  rw [primary]
  -- a single token is its own outcome; what remains opens a bracket and goes on inside
  cases token <;> try rfl
  · simp only
    split
    · next h => rw [h]; rfl
    · next h =>
      rw [h, outcome_ok, Option.bind_some]
      split
      · next h => rw [after?_of_expect_error finish h]; rfl
      · next h => rw [after?_of_expect_ok finish h]; rfl
  · simp only
    split
    · rfl
    · split
      · next h => rw [h]; rfl
      · next h => rw [h]; rfl
  · simp only
    split
    · rfl
    · split
      · next h => rw [h]; rfl
      · next h => rw [h]; rfl

/-! ## Lists of items and entries -/

theorem outcome_items : outcome (items finish ts) =
    (outcome (expression finish ts)).bind fun item =>
      if peek item.2 = some .bracketClose then some ([item.1], item.2.tail)
      else
        (after? .comma item.2).bind fun rest =>
          (outcome (items finish rest)).bind fun more => some (item.1 :: more.1, more.2) := by
  rw [items]
  split
  · next h => rw [h]; rfl
  · next item h =>
    rw [h, outcome_ok, Option.bind_some]
    split
    · -- an error means that neither the closing bracket nor a comma is ahead
      next h =>
      obtain ⟨hPeek, hAfter⟩ := expectOr_error finish h
      simp only [if_neg hPeek, hAfter]
      rfl
    · next h =>
      obtain ⟨hPeek, hTail⟩ := expectOr_close finish h
      simp only [if_pos hPeek, hTail]
      rfl
    · next h =>
      obtain ⟨hPeek, hAfter⟩ := expectOr_comma finish h
      simp only [if_neg hPeek, hAfter, Option.bind_some]
      split
      · next h => rw [h]; rfl
      · next h => rw [h]; rfl

theorem outcome_entries : outcome (entries finish ts) =
    ((peek ts).bind keyText?).bind fun key =>
      (after? .colon ts.tail).bind fun rest =>
        (outcome (expression finish rest)).bind fun item =>
          if peek item.2 = some .braceClose then some ([(key, item.1)], item.2.tail)
          else
            (after? .comma item.2).bind fun rest =>
              (outcome (entries finish rest)).bind fun more =>
                some ((key, item.1) :: more.1, more.2) := by
  -- the cases are those of the reader; each of its steps has a lemma that says what it leaves
  have hKey := @outcome_entryKey ts finish
  rw [entries]
  split
  · next h =>
    rw [h, outcome_error, eq_comm, Option.map_eq_none_iff] at hKey
    rw [hKey]
    rfl
  · next key h =>
    rw [h, outcome_ok, eq_comm, Option.map_eq_some_iff] at hKey
    obtain ⟨k, hText, hRest⟩ := hKey
    obtain ⟨rfl, hTail⟩ := Prod.mk.inj hRest
    rw [hText, hTail, Option.bind_some]
    split
    · next h => rw [after?_of_expect_error finish h]; rfl
    · next colon h =>
      rw [after?_of_expect_ok finish h, Option.bind_some]
      split
      · next h => rw [h]; rfl
      · next item h =>
        rw [h, outcome_ok, Option.bind_some]
        split
        · next h =>
          obtain ⟨hPeek, hAfter⟩ := expectOr_error finish h
          simp only [if_neg hPeek, hAfter]
          rfl
        · next h =>
          obtain ⟨hPeek, hTail⟩ := expectOr_close finish h
          simp only [if_pos hPeek, hTail]
          rfl
        · next h =>
          obtain ⟨hPeek, hAfter⟩ := expectOr_comma finish h
          simp only [if_neg hPeek, hAfter, Option.bind_some]
          split
          · next h => rw [h]; rfl
          · next h => rw [h]; rfl

/-! ## Loops -/

/-- A value in front of the tokens that follow it. -/
def ahead (v : Expr) (rest : List Lexeme) : Parsed (⟨.comma, 0⟩ :: rest) Expr :=
  ⟨v, rest, Nat.lt_succ_self _⟩

/-- Continues an infix expression after its left operand. -/
def binaryFrom (least : Nat) (v : Expr) (rest : List Lexeme) : Option (Expr × List Lexeme) :=
  outcome (binaryTail finish least (ahead v rest))

/-- Continues an access chain after its target. -/
def accessesFrom (v : Expr) (rest : List Lexeme) : Option (Expr × List Lexeme) :=
  outcome (accesses finish (ahead v rest))

/-- What was read before the left operand does not matter. -/
theorem outcome_binaryTail (least : Nat) (lhs : Parsed ts Expr) :
    outcome (binaryTail finish least lhs) = binaryFrom finish least lhs.value lhs.rest := by
  obtain ⟨v, rest, shorter⟩ := lhs
  -- by induction on the number of tokens left, for all that was read before
  induction h : rest.length using Nat.strongRecOn generalizing ts v rest with
  | _ n ih =>
    unfold binaryFrom ahead
    rw [binaryTail, binaryTail]
    cases rest with
    | nil => rfl
    | cons t rest =>
      simp only
      split
      · rfl
      · split
        · rfl
        · split
          · rfl
          · next rhs hRhs =>
            have hs := rhs.shorter
            have hlt : rhs.rest.length < n := by
              rw [← h, List.length_cons]
              omega
            rw [ih _ hlt _ _ _ rfl, ih _ hlt _ _ _ rfl]

theorem binaryFrom_nil (least : Nat) (v : Expr) :
    binaryFrom finish least v [] = some (v, []) := by
  unfold binaryFrom ahead
  rw [binaryTail]
  rfl

theorem binaryFrom_cons (least : Nat) (v : Expr) (t : Lexeme) (rest : List Lexeme) :
    binaryFrom finish least v (t :: rest) =
      match BinaryOp.ofToken? t.token with
      | none => some (v, t :: rest)
      | some op =>
        if op.precedence < least then some (v, t :: rest)
        else
          (outcome (binary finish (op.precedence + 1) rest)).bind fun rhs =>
            binaryFrom finish least (.binary op v rhs.1) rhs.2 := by
  rw [binaryFrom, ahead, binaryTail]
  simp only
  -- an operator that binds less tightly is left for the caller
  cases BinaryOp.ofToken? t.token with
  | none => rfl
  | some op =>
    simp only
    split
    · rfl
    · split
      · next h => rw [h]; rfl
      · next h =>
        rw [h, outcome_ok, Option.bind_some]
        exact outcome_binaryTail finish least _

/-- No operator follows that binds at least as tightly as `least`. -/
def Stops (least : Nat) (ts : List Lexeme) : Prop :=
  ∀ t op, peek ts = some t → BinaryOp.ofToken? t = some op → op.precedence < least

theorem binaryFrom_of_stops {least : Nat} (v : Expr) {rest : List Lexeme}
    (h : Stops least rest) : binaryFrom finish least v rest = some (v, rest) := by
  cases rest with
  | nil => exact binaryFrom_nil finish least v
  | cons t rest =>
    rw [binaryFrom_cons]
    split
    · rfl
    · next op hOp => rw [if_pos (h t.token op rfl hOp)]

theorem outcome_binary (least : Nat) : outcome (binary finish least ts) =
    (outcome (unary finish ts)).bind fun lhs => binaryFrom finish least lhs.1 lhs.2 := by
  rw [binary]
  split
  · next h => rw [h]; rfl
  · next h =>
    rw [h, outcome_ok, Option.bind_some]
    exact outcome_binaryTail finish least _

/-- What was read before the target does not matter. -/
theorem outcome_accesses (target : Parsed ts Expr) :
    outcome (accesses finish target) = accessesFrom finish target.value target.rest := by
  obtain ⟨v, rest, shorter⟩ := target
  -- as for `binaryTail`
  induction h : rest.length using Nat.strongRecOn generalizing ts v rest with
  | _ n ih =>
    unfold accessesFrom ahead
    rw [accesses, accesses]
    cases rest with
    | nil => rfl
    | cons t rest =>
      simp only
      split
      · cases rest with
        | nil => rfl
        | cons f rest =>
          simp only
          split
          · have hlt : rest.length < n := by
              simp only [← h, List.length_cons]
              omega
            rw [ih _ hlt _ _ _ rfl, ih _ hlt _ _ _ rfl]
          · rfl
      · split
        · split
          · rfl
          · next key hKey =>
            split
            · rfl
            · next close hClose =>
              have hk := key.shorter
              have hc := close.shorter
              have hlt : close.rest.length < n := by
                rw [← h, List.length_cons]
                omega
              rw [ih _ hlt _ _ _ rfl, ih _ hlt _ _ _ rfl]
        · rfl

/-- The name in an identifier. -/
def identName? : Token → Option String
  | .ident name => some name
  | _ => none

theorem identName?_eq_some {token : Token} {name : String} (h : identName? token = some name) :
    token = .ident name := by
  cases token <;> simp only [identName?, Option.some.injEq, reduceCtorEq] at h
  exact congrArg _ h

theorem accessesFrom_eq (v : Expr) (rest : List Lexeme) : accessesFrom finish v rest =
    if peek rest = some .dot then
      ((peek rest.tail).bind identName?).bind fun name =>
        accessesFrom finish (.member v name) rest.tail.tail
    else if peek rest = some .bracketOpen then
      (outcome (expression finish rest.tail)).bind fun key =>
        (after? .bracketClose key.2).bind fun rest => accessesFrom finish (.index v key.1) rest
    else some (v, rest) := by
  rw [accessesFrom, ahead, accesses]
  cases rest with
  | nil => rfl
  | cons t rest =>
    simp only [peek_cons, Option.some.injEq, List.tail_cons]
    -- a field, an index, or the end of the accesses
    split
    · cases rest with
      | nil => rfl
      | cons f rest =>
        obtain ⟨token, start⟩ := f
        cases token <;> first | rfl | exact outcome_accesses finish _
    · split
      · split
        · next h => rw [h]; rfl
        · next h =>
          rw [h, outcome_ok, Option.bind_some]
          split
          · next h => rw [after?_of_expect_error finish h]; rfl
          · next h =>
            rw [after?_of_expect_ok finish h, Option.bind_some]
            exact outcome_accesses finish _
      · rfl

theorem outcome_chain : outcome (chain finish ts) =
    (outcome (primary finish ts)).bind fun target => accessesFrom finish target.1 target.2 := by
  rw [chain]
  split
  · next h => rw [h]; rfl
  · next h =>
    rw [h, outcome_ok, Option.bind_some]
    exact outcome_accesses finish _

/-! ## All the tokens -/

theorem ofTokens_eq_ok {e : Expr} :
    Expr.ofTokens finish ts = .ok e ↔ outcome (expression finish ts) = some (e, []) := by
  cases ts with
  | nil =>
    constructor
    · intro h
      cases h
    · exact fun h => absurd (length_lt_of_outcome h) (Nat.not_lt_zero _)
  | cons t rest =>
    rw [Expr.ofTokens]
    · cases expression finish (t :: rest) with
      | error e => simp
      | ok p =>
        obtain ⟨v, left, shorter⟩ := p
        cases left with
        | nil => simp
        | cons u left => simp
    · intro h
      cases h

end ItemComposition.Expr.Parser
