import ItemComposition.Proofs.Expr.Grammar
import ItemComposition.Proofs.Expr.Reading

/-!
# What the readers accept

Every reader that succeeds has read a phrase of its kind and returns the tree of that phrase. A
reader calls others on the same tokens or on fewer, so all of them are proved together by induction
on the number of tokens.

The threshold of an infix expression is a level of the grammar: a run that starts at `least` ends
before an operator of a lower precedence (`Stops`), and the left operand of the loop always stands
at a level that the next operator fits under.

## Key results

- `sound`: the readers on tokens of any number
-/

namespace ItemComposition.Expr.Parser

open Grammar

variable (finish : Nat) {ts rest : List Lexeme} {e v : Expr} {least level n : Nat}

/-- The tokens up to `rest` are a phrase that stands for `e`. -/
def Reads (p : Phrase) (ts rest : List Lexeme) (e : p.Tree) : Prop :=
  ∃ used, ts = used ++ rest ∧ Derives p (used.map Lexeme.token) e

/-- Every reader is sound on fewer than `n` tokens. -/
structure Sound (n : Nat) : Prop where
  expression : ∀ {ts rest e}, ts.length < n →
    outcome (expression finish ts) = some (e, rest) → Reads .expression ts rest e
  binary : ∀ {ts rest e least}, ts.length < n → 1 ≤ least → least ≤ 7 →
    outcome (binary finish least ts) = some (e, rest) →
    Reads (.binary least) ts rest e ∧ Stops least rest
  unary : ∀ {ts rest e}, ts.length < n →
    outcome (unary finish ts) = some (e, rest) → Reads .unary ts rest e
  items : ∀ {ts rest es}, ts.length < n → outcome (items finish ts) = some (es, rest) →
    ∃ used close, ts = used ++ close :: rest ∧ close.token = .bracketClose ∧
      Derives .items (used.map Lexeme.token) es
  entries : ∀ {ts rest es}, ts.length < n → outcome (entries finish ts) = some (es, rest) →
    ∃ used close, ts = used ++ close :: rest ∧ close.token = .braceClose ∧
      Derives .entries (used.map Lexeme.token) es

theorem Sound.mono {m n : Nat} (h : Sound finish n) (le : m ≤ n) : Sound finish m where
  expression hlt := h.expression (Nat.lt_of_lt_of_le hlt le)
  binary hlt := h.binary (Nat.lt_of_lt_of_le hlt le)
  unary hlt := h.unary (Nat.lt_of_lt_of_le hlt le)
  items hlt := h.items (Nat.lt_of_lt_of_le hlt le)
  entries hlt := h.entries (Nat.lt_of_lt_of_le hlt le)

/-- A rule that puts one token in front of a phrase. -/
theorem Reads.cons {p q : Phrase} {e : p.Tree} {e' : q.Tree} {token : Token}
    (hPeek : peek ts = some token) (h : Reads p ts.tail rest e)
    (rule : ∀ {w}, Derives p w e → Derives q (token :: w) e') : Reads q ts rest e' := by
  obtain ⟨t, rfl, hts⟩ := peek_eq_some hPeek
  obtain ⟨used, hTail, hUsed⟩ := h
  exact ⟨t :: used, by rw [hts, hTail, List.cons_append], rule hUsed⟩

/-- A rule that puts a phrase between two tokens. -/
theorem reads_enclosed {p q : Phrase} {e : p.Tree} {e' : q.Tree} {opening close : Lexeme}
    {used : List Lexeme} (h : Derives p (used.map Lexeme.token) e)
    (rule : ∀ {w}, Derives p w e → Derives q (opening.token :: (w ++ [close.token])) e') :
    Reads q (opening :: (used ++ close :: rest)) rest e' := by
  refine ⟨opening :: (used ++ [close]), by simp, ?_⟩
  rw [List.map_cons, List.map_append, List.map_singleton]
  exact rule h

/-! ## Access chains -/

theorem reads_primary (ih : Sound finish ts.length)
    (h : outcome (primary finish ts) = some (e, rest)) : Reads .primary ts rest e := by
  cases ts with
  | nil =>
    rw [outcome_primary_nil] at h
    cases h
  | cons t us =>
    have hlt : us.length < (t :: us).length := Nat.lt_succ_self _
    obtain ⟨token, start⟩ := t
    rw [outcome_primary_cons] at h
    cases token <;> simp only [Option.some.injEq, Prod.mk.injEq, reduceCtorEq] at h
    -- a literal or an identifier is one token
    case trueWord =>
      obtain ⟨rfl, rfl⟩ := h
      exact ⟨[_], rfl, .trueWord⟩
    case falseWord =>
      obtain ⟨rfl, rfl⟩ := h
      exact ⟨[_], rfl, .falseWord⟩
    case nullWord =>
      obtain ⟨rfl, rfl⟩ := h
      exact ⟨[_], rfl, .nullWord⟩
    case ident =>
      obtain ⟨rfl, rfl⟩ := h
      exact ⟨[_], rfl, .ident⟩
    case str =>
      obtain ⟨rfl, rfl⟩ := h
      exact ⟨[_], rfl, .text⟩
    case number =>
      obtain ⟨rfl, rfl⟩ := h
      exact ⟨[_], rfl, .number⟩
    case parenOpen =>
      rw [Option.bind_eq_some_iff] at h
      obtain ⟨⟨a, between⟩, hInner, h⟩ := h
      rw [Option.bind_eq_some_iff] at h
      obtain ⟨after, hClose, h⟩ := h
      obtain ⟨rfl, rfl⟩ := Prod.mk.inj (Option.some.inj h)
      obtain ⟨used, rfl, hUsed⟩ := ih.expression hlt hInner
      obtain ⟨close, hToken, rfl⟩ := after?_eq_some hClose
      exact reads_enclosed hUsed fun h => by rw [hToken]; exact .parens h
    case bracketOpen =>
      split at h
      · next hPeek =>
        obtain ⟨close, hToken, hus⟩ := peek_eq_some hPeek
        obtain ⟨rfl, rfl⟩ := Prod.mk.inj (Option.some.inj h)
        refine ⟨[⟨.bracketOpen, start⟩, close], congrArg _ hus, ?_⟩
        rw [List.map_cons, List.map_singleton, hToken]
        exact .emptyArray
      · rw [Option.bind_eq_some_iff] at h
        obtain ⟨⟨es, after⟩, hItems, h⟩ := h
        obtain ⟨rfl, rfl⟩ := Prod.mk.inj (Option.some.inj h)
        obtain ⟨used, close, rfl, hToken, hUsed⟩ := ih.items hlt hItems
        exact reads_enclosed hUsed fun h => by rw [hToken]; exact .array h
    case braceOpen =>
      split at h
      · next hPeek =>
        obtain ⟨close, hToken, hus⟩ := peek_eq_some hPeek
        obtain ⟨rfl, rfl⟩ := Prod.mk.inj (Option.some.inj h)
        refine ⟨[⟨.braceOpen, start⟩, close], congrArg _ hus, ?_⟩
        rw [List.map_cons, List.map_singleton, hToken]
        exact .emptyObject
      · rw [Option.bind_eq_some_iff] at h
        obtain ⟨⟨es, after⟩, hEntries, h⟩ := h
        obtain ⟨rfl, rfl⟩ := Prod.mk.inj (Option.some.inj h)
        obtain ⟨used, close, rfl, hToken, hUsed⟩ := ih.entries hlt hEntries
        exact reads_enclosed hUsed fun h => by rw [hToken]; exact .object h

/-- One turn of the loop over accesses: it ends, or reads an access after its target. -/
theorem accessesFrom_step (ih : Sound finish n) (hlt : ts.length < n)
    (h : accessesFrom finish v ts = some (e, rest)) :
    e = v ∧ rest = ts ∨
      ∃ access after w, ts = access ++ after ∧ after.length < ts.length ∧
        (∀ ws, Derives .chain ws v → Derives .chain (ws ++ access.map Lexeme.token) w) ∧
        accessesFrom finish w after = some (e, rest) := by
  rw [accessesFrom_eq] at h
  split at h
  · -- a dot and a name
    next hPeek =>
    right
    obtain ⟨dot, hDot, hts⟩ := peek_eq_some hPeek
    rw [Option.bind_eq_some_iff] at h
    obtain ⟨name, hName, h⟩ := h
    obtain ⟨token, hPeek, hIdent⟩ := Option.bind_eq_some_iff.1 hName
    obtain ⟨field, rfl, hTail⟩ := peek_eq_some hPeek
    have hField := identName?_eq_some hIdent
    rw [hTail] at hts
    refine ⟨[dot, field], ts.tail.tail, .member v name, hts, ?_, ?_, h⟩
    · rw [hts]
      simp only [List.tail_cons, List.length_cons]
      omega
    · intro ws hws
      rw [List.map_cons, List.map_singleton, hDot, hField]
      exact .field hws
  · split at h
    · -- a key in brackets, which the induction reads, for it is shorter than what is left
      next hPeek =>
      right
      obtain ⟨bracket, hOpen, hts⟩ := peek_eq_some hPeek
      rw [Option.bind_eq_some_iff] at h
      obtain ⟨⟨key, between⟩, hKey, h⟩ := h
      rw [Option.bind_eq_some_iff] at h
      obtain ⟨after, hClose, h⟩ := h
      obtain ⟨close, hToken, rfl⟩ := after?_eq_some hClose
      have hTail : ts.tail.length < ts.length := by rw [hts]; exact Nat.lt_succ_self _
      obtain ⟨used, hUsed, hKeyTree⟩ := ih.expression (by omega) hKey
      rw [hUsed] at hts hTail
      refine ⟨bracket :: (used ++ [close]), after, .index v key, by rw [hts]; simp, ?_, ?_, h⟩
      · simp only [List.length_append, List.length_cons] at hTail
        omega
      · intro ws hws
        rw [List.map_cons, List.map_append, List.map_singleton, hOpen, hToken]
        exact .index hws hKeyTree
    · obtain ⟨rfl, rfl⟩ := Prod.mk.inj (Option.some.inj h)
      exact .inl ⟨rfl, rfl⟩

/-- Accesses extend the chain in front of them. -/
theorem reads_accesses (ih : Sound finish n) (hlt : ts.length < n)
    (h : accessesFrom finish v ts = some (e, rest)) :
    ∃ used, ts = used ++ rest ∧
      ∀ ws, Derives .chain ws v → Derives .chain (ws ++ used.map Lexeme.token) e := by
  -- by induction on the number of tokens left, which each access makes fewer
  induction hn : ts.length using Nat.strongRecOn generalizing ts v with
  | _ m loop =>
    obtain ⟨rfl, rfl⟩ | ⟨access, after, w, hts, hAfter, hAccess, h⟩ :=
      accessesFrom_step finish ih hlt h
    · exact ⟨[], rfl, fun ws hws => by rwa [List.map_nil, List.append_nil]⟩
    · obtain ⟨used, rfl, hUsed⟩ := loop after.length (by omega) (by omega) h rfl
      refine ⟨access ++ used, by rw [hts, List.append_assoc], ?_⟩
      intro ws hws
      rw [List.map_append, ← List.append_assoc]
      exact hUsed _ (hAccess ws hws)

theorem reads_chain (ih : Sound finish ts.length)
    (h : outcome (chain finish ts) = some (e, rest)) : Reads .chain ts rest e := by
  rw [outcome_chain, Option.bind_eq_some_iff] at h
  obtain ⟨⟨target, after⟩, hTarget, h⟩ := h
  have hlt := length_lt_of_outcome hTarget
  obtain ⟨first, rfl, hFirst⟩ := reads_primary finish ih hTarget
  obtain ⟨used, rfl, hUsed⟩ := reads_accesses finish ih hlt h
  refine ⟨first ++ used, (List.append_assoc ..).symm, ?_⟩
  rw [List.map_append]
  exact hUsed _ (.primary hFirst)

/-! ## Operators -/

theorem reads_unary (ih : Sound finish ts.length)
    (h : outcome (unary finish ts) = some (e, rest)) : Reads .unary ts rest e := by
  -- an operand of a prefix operator has one token less
  have hShorter : ∀ {token}, peek ts = some token → ts.tail.length < ts.length := by
    intro token hPeek
    obtain ⟨t, -, hts⟩ := peek_eq_some hPeek
    rw [hts]
    exact Nat.lt_succ_self _
  rw [outcome_unary] at h
  split at h
  · next hPeek =>
    rw [Option.bind_eq_some_iff] at h
    obtain ⟨⟨a, after⟩, hOperand, h⟩ := h
    obtain ⟨rfl, rfl⟩ := Prod.mk.inj (Option.some.inj h)
    exact (ih.unary (hShorter hPeek) hOperand).cons hPeek .not
  · split at h
    · next hPeek =>
      rw [Option.bind_eq_some_iff] at h
      obtain ⟨⟨a, after⟩, hOperand, h⟩ := h
      obtain ⟨rfl, rfl⟩ := Prod.mk.inj (Option.some.inj h)
      exact (ih.unary (hShorter hPeek) hOperand).cons hPeek .negate
    · obtain ⟨used, hts, hUsed⟩ := reads_chain finish ih h
      exact ⟨used, hts, .chain hUsed⟩

/-- One turn of the loop over infix operators: it ends, or reads an operator and its right
operand, after which no operator follows that binds more tightly. -/
theorem binaryFrom_step (ih : Sound finish n) (hlt : ts.length < n)
    (h : binaryFrom finish least v ts = some (e, rest)) :
    e = v ∧ rest = ts ∧ Stops least ts ∨
      ∃ t op used after r, ts = t :: (used ++ after) ∧ after.length < ts.length ∧
        (t.token, op) ∈ operators op.precedence ∧ least ≤ op.precedence ∧
        Derives (.binary (op.precedence + 1)) (used.map Lexeme.token) r ∧
        Stops (op.precedence + 1) after ∧
        binaryFrom finish least (.binary op v r) after = some (e, rest) := by
  cases ts with
  | nil =>
    rw [binaryFrom_nil] at h
    obtain ⟨rfl, rfl⟩ := Prod.mk.inj (Option.some.inj h)
    exact .inl ⟨rfl, rfl, fun t op hPeek => by cases hPeek⟩
  | cons t us =>
    rw [binaryFrom_cons] at h
    split at h
    · -- no operator is ahead, so the tower stops at every level
      next hNone =>
      obtain ⟨rfl, rfl⟩ := Prod.mk.inj (Option.some.inj h)
      refine .inl ⟨rfl, rfl, fun u op hPeek hOp => ?_⟩
      rw [← Option.some.inj hPeek, hNone] at hOp
      cases hOp
    · next op hSome =>
      split at h
      · -- an operator below the least level is not taken, and that is where the phrase stops
        next hLess =>
        obtain ⟨rfl, rfl⟩ := Prod.mk.inj (Option.some.inj h)
        refine .inl ⟨rfl, rfl, fun u op' hPeek hOp => ?_⟩
        rw [← Option.some.inj hPeek, hSome] at hOp
        exact Option.some.inj hOp ▸ hLess
      · next hLess =>
        right
        rw [Option.bind_eq_some_iff] at h
        obtain ⟨⟨r, after⟩, hRight, h⟩ := h
        have hAfter := length_lt_of_outcome hRight
        have hBounds := precedence_le op
        obtain ⟨⟨used, rfl, hUsed⟩, hStops⟩ :=
          ih.binary (Nat.lt_of_succ_lt hlt) (by omega) (by omega) hRight
        exact ⟨t, op, used, after, r, rfl, Nat.lt_succ_of_lt hAfter,
          mem_operators.2 ⟨hSome, rfl⟩, Nat.not_lt.1 hLess, hUsed, hStops, h⟩

/-- The loop extends a left operand of any level that the next operator fits under. -/
theorem reads_binaryFrom (ih : Sound finish n) (hlt : ts.length < n) (pos : 1 ≤ least)
    (hLeast : least ≤ level) (top : level ≤ 7) (hStops : Stops (level + 1) ts)
    (h : binaryFrom finish least v ts = some (e, rest)) :
    Stops least rest ∧ ∃ used, ts = used ++ rest ∧
      ∀ ws, Derives (.binary level) ws v →
        Derives (.binary least) (ws ++ used.map Lexeme.token) e := by
  -- by induction on the number of tokens left; the level sinks to that of each operator
  induction hn : ts.length using Nat.strongRecOn generalizing ts v level with
  | _ m loop =>
    obtain ⟨rfl, rfl, hEnd⟩ |
        ⟨t, op, used, after, r, hts, hAfter, hOp, hTight, hRight, hNext, h⟩ :=
      binaryFrom_step finish ih hlt h
    · refine ⟨hEnd, [], rfl, fun ws hws => ?_⟩
      rw [List.map_nil, List.append_nil]
      exact hws.binary_of_le pos hLeast top
    · have hBounds := precedence_le op
      -- the new left operand stands at the level of its operator
      obtain ⟨hEnd, more, rfl, hMore⟩ :=
        loop after.length (by omega) (by omega) hTight (by omega) hNext h rfl
      refine ⟨hEnd, t :: (used ++ more), by rw [hts]; simp, fun ws hws => ?_⟩
      have hFits : op.precedence < level + 1 :=
        hStops t.token op (by rw [hts]; rfl) (mem_operators.1 hOp).1
      have hLeft := hws.binary_of_le hBounds.1 (Nat.le_of_lt_succ hFits) top
      have hTree := hMore _ (.operator hOp hLeft hRight)
      simpa only [List.map_cons, List.map_append, List.append_assoc, List.cons_append] using hTree

theorem reads_binary (ih : Sound finish ts.length) (pos : 1 ≤ least) (top : least ≤ 7)
    (h : outcome (binary finish least ts) = some (e, rest)) :
    Reads (.binary least) ts rest e ∧ Stops least rest := by
  rw [outcome_binary, Option.bind_eq_some_iff] at h
  obtain ⟨⟨lhs, after⟩, hLeft, h⟩ := h
  have hlt := length_lt_of_outcome hLeft
  obtain ⟨first, rfl, hFirst⟩ := reads_unary finish ih hLeft
  -- every operator fits under an operand
  have hStops : Stops (7 + 1) after := fun t op _ _ => by
    have hBounds := precedence_le op
    omega
  obtain ⟨hEnd, used, rfl, hUsed⟩ :=
    reads_binaryFrom finish ih hlt pos top (Nat.le_refl 7) hStops h
  refine ⟨⟨first ++ used, (List.append_assoc ..).symm, ?_⟩, hEnd⟩
  rw [List.map_append]
  exact hUsed _ (.operand hFirst)

/-! ## Expressions and lists -/

/-- Every operator has a precedence of at least `1`, so the threshold `0` is the level `1`. -/
theorem binaryFrom_zero : binaryFrom finish 0 v ts = binaryFrom finish 1 v ts := by
  induction hn : ts.length using Nat.strongRecOn generalizing ts v with
  | _ m loop =>
    cases ts with
    | nil => rw [binaryFrom_nil, binaryFrom_nil]
    | cons t us =>
      rw [binaryFrom_cons, binaryFrom_cons]
      split
      · rfl
      · -- no operator has level zero, so the two bounds let the same ones through
        next op _ =>
        have hBounds := precedence_le op
        rw [if_neg (Nat.not_lt_zero _), if_neg (Nat.not_lt.2 hBounds.1)]
        refine Option.bind_congr fun rhs hRight => ?_
        have hAfter := length_lt_of_outcome hRight
        exact loop rhs.2.length (by rw [← hn, List.length_cons]; omega) rfl

theorem outcome_binary_zero : outcome (binary finish 0 ts) = outcome (binary finish 1 ts) := by
  simp only [outcome_binary, binaryFrom_zero]

theorem reads_expression (ih : Sound finish ts.length)
    (h : outcome (expression finish ts) = some (e, rest)) : Reads .expression ts rest e := by
  rw [outcome_expression, outcome_binary_zero, Option.bind_eq_some_iff] at h
  obtain ⟨⟨c, after⟩, hCondition, h⟩ := h
  have hlt := length_lt_of_outcome hCondition
  obtain ⟨⟨cs, rfl, hcs⟩, -⟩ := reads_binary finish ih (Nat.le_refl 1) (by omega) hCondition
  split at h
  · next hPeek =>
    obtain ⟨question, hQuestion, hts⟩ := peek_eq_some hPeek
    simp only at hts hlt h
    rw [Option.bind_eq_some_iff] at h
    obtain ⟨⟨a, between⟩, hThen, h⟩ := h
    rw [Option.bind_eq_some_iff] at h
    obtain ⟨tail, hAfter, h⟩ := h
    obtain ⟨colon, hColon, rfl⟩ := after?_eq_some hAfter
    rw [Option.bind_eq_some_iff] at h
    obtain ⟨⟨b, last⟩, hElse, h⟩ := h
    obtain ⟨rfl, rfl⟩ := Prod.mk.inj (Option.some.inj h)
    have hTail := length_lt_of_outcome hThen
    -- both branches are shorter than the whole, which the hypothesis of the induction needs
    have hLength : after.length = after.tail.length + 1 := by rw [hts]; rfl
    obtain ⟨as, hThenRest, has⟩ := ih.expression (by omega) hThen
    rw [List.length_cons] at hTail
    obtain ⟨bs, rfl, hbs⟩ := ih.expression (by omega) hElse
    refine ⟨cs ++ question :: (as ++ colon :: bs), ?_, ?_⟩
    · rw [hts, hThenRest]
      simp
    · rw [List.map_append, List.map_cons, List.map_append, List.map_cons, hQuestion, hColon]
      exact .conditional hcs has hbs
  · obtain ⟨rfl, rfl⟩ := Prod.mk.inj (Option.some.inj h)
    exact ⟨cs, rfl, .plain hcs⟩

theorem reads_items (ih : Sound finish ts.length) {es : List Expr}
    (h : outcome (items finish ts) = some (es, rest)) :
    ∃ used close, ts = used ++ close :: rest ∧ close.token = .bracketClose ∧
      Derives .items (used.map Lexeme.token) es := by
  rw [outcome_items, Option.bind_eq_some_iff] at h
  obtain ⟨⟨a, after⟩, hItem, h⟩ := h
  have hlt := length_lt_of_outcome hItem
  obtain ⟨first, rfl, hFirst⟩ := reads_expression finish ih hItem
  split at h
  · next hPeek =>
    obtain ⟨close, hClose, hts⟩ := peek_eq_some hPeek
    obtain ⟨rfl, rfl⟩ := Prod.mk.inj (Option.some.inj h)
    -- the bracket closes the list here, and belongs to the list, not to the last item
    exact ⟨first, close, by rw [← hts], hClose, .lastItem hFirst⟩
  · rw [Option.bind_eq_some_iff] at h
    obtain ⟨tail, hAfter, h⟩ := h
    obtain ⟨comma, hComma, rfl⟩ := after?_eq_some hAfter
    rw [Option.bind_eq_some_iff] at h
    obtain ⟨⟨more, last⟩, hMore, h⟩ := h
    obtain ⟨rfl, rfl⟩ := Prod.mk.inj (Option.some.inj h)
    rw [List.length_cons] at hlt
    obtain ⟨used, close, rfl, hClose, hUsed⟩ := ih.items (by omega) hMore
    refine ⟨first ++ comma :: used, close, by simp, hClose, ?_⟩
    rw [List.map_append, List.map_cons, hComma]
    exact .item hFirst hUsed

theorem reads_entries (ih : Sound finish ts.length) {es : List (String × Expr)}
    (h : outcome (entries finish ts) = some (es, rest)) :
    ∃ used close, ts = used ++ close :: rest ∧ close.token = .braceClose ∧
      Derives .entries (used.map Lexeme.token) es := by
  rw [outcome_entries, Option.bind_eq_some_iff] at h
  obtain ⟨name, hName, h⟩ := h
  obtain ⟨token, hPeek, hKey⟩ := Option.bind_eq_some_iff.1 hName
  obtain ⟨key, rfl, hts⟩ := peek_eq_some hPeek
  rw [Option.bind_eq_some_iff] at h
  obtain ⟨between, hAfter, h⟩ := h
  obtain ⟨colon, hColon, hBetween⟩ := after?_eq_some hAfter
  rw [Option.bind_eq_some_iff] at h
  obtain ⟨⟨a, after⟩, hItem, h⟩ := h
  rw [hBetween] at hts
  -- the value starts two lexemes on, behind the key and its colon
  have hLength : ts.length = between.length + 2 := by rw [hts]; rfl
  have hlt := length_lt_of_outcome hItem
  obtain ⟨first, rfl, hFirst⟩ := ih.expression (by omega) hItem
  split at h
  · next hPeek =>
    obtain ⟨close, hClose, hLast⟩ := peek_eq_some hPeek
    obtain ⟨rfl, rfl⟩ := Prod.mk.inj (Option.some.inj h)
    refine ⟨key :: colon :: first, close, ?_, hClose, ?_⟩
    · rw [List.cons_append, List.cons_append, ← hLast]
      exact hts
    · rw [List.map_cons, List.map_cons, hColon]
      exact .lastEntry (keyText?_eq_some hKey) hFirst
  · rw [Option.bind_eq_some_iff] at h
    obtain ⟨tail, hAfter, h⟩ := h
    obtain ⟨comma, hComma, rfl⟩ := after?_eq_some hAfter
    rw [Option.bind_eq_some_iff] at h
    obtain ⟨⟨more, last⟩, hMore, h⟩ := h
    obtain ⟨rfl, rfl⟩ := Prod.mk.inj (Option.some.inj h)
    rw [List.length_cons] at hlt
    obtain ⟨used, close, rfl, hClose, hUsed⟩ := ih.entries (by omega) hMore
    refine ⟨key :: colon :: (first ++ comma :: used), close, by rw [hts]; simp, hClose, ?_⟩
    rw [List.map_cons, List.map_cons, List.map_append, List.map_cons, hColon, hComma]
    exact .entry (keyText?_eq_some hKey) hFirst hUsed

/-- The readers are sound on tokens of any number. -/
theorem sound (n : Nat) : Sound finish n := by
  induction n with
  | zero => constructor <;> exact fun hlt => absurd hlt (Nat.not_lt_zero _)
  | succ n ih =>
    have hAt : ∀ {m : Nat}, m < n + 1 → Sound finish m := fun hlt =>
      ih.mono finish (Nat.le_of_lt_succ hlt)
    constructor
    case expression => exact fun hlt h => reads_expression finish (hAt hlt) h
    case binary => exact fun hlt pos top h => reads_binary finish (hAt hlt) pos top h
    case unary => exact fun hlt h => reads_unary finish (hAt hlt) h
    case items => exact fun hlt h => reads_items finish (hAt hlt) h
    case entries => exact fun hlt h => reads_entries finish (hAt hlt) h

end ItemComposition.Expr.Parser
