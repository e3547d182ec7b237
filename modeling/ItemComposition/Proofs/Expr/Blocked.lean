import ItemComposition.Proofs.Expr.Lookahead

/-!
# Where the readers fail

A reader that fails points at the first token that cannot stand where it is, or at the end. The
tokens before it begin some phrase, and with it the reader fails whatever follows. Both are kept
together in `Blocked`, which each reader passes on to those that call it; a loop passes it on with
the tokens that it has read so far in front.

## Key results

- `blocked_here`: a reader fails at the token that it looks at
- `Blocked.lift`: a reader fails where one that it calls does
- `blocked_binaryTail`, `blocked_accesses`: the loops
- `exact`: the readers on tokens of any number
-/

namespace ItemComposition.Expr.Parser

open Grammar

variable {finish : Nat} {ts front us after : List Lexeme} {e v : Expr} {level least n : Nat}
  {p q : Phrase} {err : SyntaxError}

/-! ## Blocked readers -/

variable (finish) in
/-- The reader of a phrase's kind. -/
def reader : (p : Phrase) → List Lexeme → Option (p.Tree × List Lexeme)
  | .expression, ts => outcome (expression finish ts)
  | .binary level, ts => outcome (binary finish level ts)
  | .unary, ts => outcome (unary finish ts)
  | .chain, ts => outcome (chain finish ts)
  | .primary, ts => outcome (primary finish ts)
  | .items, ts => outcome (items finish ts)
  | .entries, ts => outcome (entries finish ts)

/-- The tokens can be continued to a phrase. -/
def Begins (p : Phrase) (w : List Token) : Prop := ∃ more e, Derives p (w ++ more) e

variable (finish) in
/-- The position is the first where the reader cannot go on. -/
def Blocked (p : Phrase) (ts : List Lexeme) (err : SyntaxError) : Prop :=
  ∃ before after, ts = before ++ after ∧ err.position = position finish after ∧
    Begins p (before.map Lexeme.token) ∧
    ∀ after', peek after' = peek after → reader finish p (before ++ after') = none

theorem begins_of_derives {w : List Token} {e : p.Tree} (h : Derives p w e) : Begins p w :=
  ⟨[], e, by rwa [List.append_nil]⟩

/-- A reader fails where one that it calls does. -/
theorem Blocked.lift (front : List Lexeme) (h : Blocked finish p us err) (hts : ts = front ++ us)
    (hTree : ∀ w e, Derives p w e → Begins q (front.map Lexeme.token ++ w))
    (hRun : ∀ us', peek us' = peek us → reader finish p us' = none →
      reader finish q (front ++ us') = none) : Blocked finish q ts err := by
  subst hts
  obtain ⟨before, after, rfl, hPosition, ⟨more, e, hMore⟩, hNone⟩ := h
  refine ⟨front ++ before, after, (List.append_assoc ..).symm, hPosition, ?_, ?_⟩
  · obtain ⟨more', e', hDerives⟩ := hTree _ e hMore
    refine ⟨more ++ more', e', ?_⟩
    simpa only [List.map_append, List.append_assoc] using hDerives
  · intro after' hPeek
    rw [List.append_assoc]
    refine hRun _ ?_ (hNone after' hPeek)
    -- what comes next is the head of the rest, so it is the same behind the front
    cases before with
    | nil => exact hPeek
    | cons t before => rfl

/-- A reader fails at the token that it looks at. -/
theorem blocked_here (front : List Lexeme) (hPosition : err.position = position finish us)
    (hts : ts = front ++ us)
    (hTree : Begins q (front.map Lexeme.token))
    (hRun : ∀ us', peek us' = peek us → reader finish q (front ++ us') = none) :
    Blocked finish q ts err := ⟨front, us, hts, hPosition, hTree, hRun⟩

/-! ## Single tokens -/

theorem position_of_expect_error {token : Token} (h : expect finish token ts = .error err) :
    err.position = position finish ts := by
  cases ts with
  | nil =>
    cases h
    rfl
  | cons t rest =>
    rw [expect] at h
    split at h <;> cases h
    rfl

theorem position_of_expectOr_error {close : Token} (h : expectOr finish close ts = .error err) :
    err.position = position finish ts := by
  cases ts with
  | nil =>
    cases h
    rfl
  | cons t rest =>
    rw [expectOr] at h
    split at h
    · cases h
    · split at h <;> cases h
      rfl

theorem entryKey_eq_error (h : entryKey finish ts = .error err) :
    err.position = position finish ts ∧ (peek ts).bind keyText? = none := by
  have hOutcome := @outcome_entryKey ts finish
  rw [h, outcome_error, eq_comm, Option.map_eq_none_iff] at hOutcome
  refine ⟨?_, hOutcome⟩
  cases ts with
  | nil =>
    cases h
    rfl
  | cons t rest =>
    obtain ⟨token, start⟩ := t
    cases token <;> cases h <;> rfl

theorem entryKey_eq_ok {key : Parsed ts String} (h : entryKey finish ts = .ok key) :
    ∃ t, ts = t :: key.rest ∧ keyText? t.token = some key.value := by
  have hOutcome := @outcome_entryKey ts finish
  rw [h, outcome_ok, eq_comm, Option.map_eq_some_iff] at hOutcome
  obtain ⟨name, hName, hRest⟩ := hOutcome
  obtain ⟨token, hPeek, hKey⟩ := Option.bind_eq_some_iff.1 hName
  obtain ⟨t, rfl, hts⟩ := peek_eq_some hPeek
  obtain ⟨rfl, hTail⟩ := Prod.mk.inj hRest
  exact ⟨t, hts.trans (congrArg (t :: ·) hTail), hKey⟩

theorem after?_congr {token : Token} {us' : List Lexeme} (h : after? token us = none)
    (hPeek : peek us' = peek us) : after? token us' = none := by
  unfold after? at h ⊢
  rw [hPeek]
  split at h
  · cases h
  · next hNe => rw [if_neg hNe]

theorem expect_eq_ok {token : Token} {taken : Parsed ts Unit}
    (h : expect finish token ts = .ok taken) : ∃ t, t.token = token ∧ ts = t :: taken.rest :=
  after?_eq_some (after?_of_expect_ok finish h)

/-! ## All readers together -/

variable (finish) in
/-- Every reader that fails on fewer than `n` tokens is blocked. -/
structure Exact (n : Nat) : Prop where
  expression : ∀ {ts err}, ts.length < n → expression finish ts = .error err →
    Blocked finish .expression ts err
  binary : ∀ {ts least err}, ts.length < n → least ≤ 7 → binary finish least ts = .error err →
    Blocked finish (.binary (max least 1)) ts err
  unary : ∀ {ts err}, ts.length < n → unary finish ts = .error err → Blocked finish .unary ts err
  items : ∀ {ts err}, ts.length < n → items finish ts = .error err → Blocked finish .items ts err
  entries : ∀ {ts err}, ts.length < n → entries finish ts = .error err →
    Blocked finish .entries ts err

theorem Exact.mono {m : Nat} (h : Exact finish n) (le : m ≤ n) : Exact finish m where
  expression hlt := h.expression (Nat.lt_of_lt_of_le hlt le)
  binary hlt := h.binary (Nat.lt_of_lt_of_le hlt le)
  unary hlt := h.unary (Nat.lt_of_lt_of_le hlt le)
  items hlt := h.items (Nat.lt_of_lt_of_le hlt le)
  entries hlt := h.entries (Nat.lt_of_lt_of_le hlt le)

/-! ## Access chains -/

theorem begins_primary : Begins .primary [] := ⟨[.nullWord], _, .nullWord⟩

theorem blocked_primary (ih : Exact finish ts.length) (h : primary finish ts = .error err) :
    Blocked finish .primary ts err := by
  cases ts with
  | nil =>
    rw [primary] at h
    cases h
    refine blocked_here [] rfl rfl begins_primary fun us' hPeek => ?_
    cases us' with
    | nil => exact outcome_primary_nil finish
    | cons t us' => cases hPeek
  | cons t us =>
    have hlt : us.length < (t :: us).length := Nat.lt_succ_self _
    obtain ⟨token, start⟩ := t
    rw [primary] at h
    cases token
    case parenOpen =>
      simp only at h
      split at h
      · next hInner =>
        cases h
        refine (ih.expression hlt hInner).lift [⟨.parenOpen, start⟩] rfl
          (fun w e hw => ⟨[.parenClose], e, .parens hw⟩)
          fun us' _ (hNone : outcome (expression finish us') = none) => ?_
        rw [reader, List.singleton_append, outcome_primary_cons]
        simp only [hNone, Option.bind_none]
      · next inner hInner =>
        -- all of the inner expression is read again, whatever follows it
        obtain ⟨-, used, hus, hUsed, hSame⟩ := expression_eq_ok hInner
        split at h
        · next hClose =>
          cases h
          refine blocked_here (⟨.parenOpen, start⟩ :: used)
            (position_of_expect_error hClose) (congrArg _ hus) ⟨[.parenClose], _, .parens hUsed⟩
            fun us' hPeek => ?_
          rw [reader, List.cons_append, outcome_primary_cons]
          simp only [hSame us' hPeek, Option.bind_some,
            after?_congr (after?_of_expect_error finish hClose) hPeek, Option.bind_none]
        · cases h
    case bracketOpen =>
      simp only at h
      split at h
      · cases h
      · next hOpen =>
        split at h
        · next hItems =>
          cases h
          refine (ih.items hlt hItems).lift [⟨.bracketOpen, start⟩] rfl
            (fun w es hw => ⟨[.bracketClose], .array es, .array hw⟩) fun us' hPeek
              (hNone : outcome (items finish us') = none) => ?_
          rw [reader, List.singleton_append, outcome_primary_cons]
          simp only [hPeek, if_neg hOpen, hNone, Option.bind_none]
        · cases h
    case braceOpen =>
      simp only at h
      split at h
      · cases h
      · next hOpen =>
        split at h
        · next hEntries =>
          cases h
          refine (ih.entries hlt hEntries).lift [⟨.braceOpen, start⟩] rfl
            (fun w es hw => ⟨[.braceClose], .object es, .object hw⟩) fun us' hPeek
              (hNone : outcome (entries finish us') = none) => ?_
          rw [reader, List.singleton_append, outcome_primary_cons]
          simp only [hPeek, if_neg hOpen, hNone, Option.bind_none]
        · cases h
    case trueWord | falseWord | nullWord | ident | str | number => cases h
    -- no other token begins a primary expression
    all_goals
      cases h
      refine blocked_here [] rfl rfl begins_primary fun us' hPeek => ?_
      obtain ⟨t, hToken, hus⟩ := peek_eq_some hPeek
      rw [List.nil_append, hus, reader, outcome_primary_cons, hToken]

section

variable {t : Lexeme} (hTarget : Derives .chain (front.map Lexeme.token) v)
include hTarget

theorem chain_dot (hDot : t.token = .dot) (us' : List Lexeme) :
    outcome (chain finish (front ++ t :: us')) =
      ((peek us').bind identName?).bind fun name =>
        accessesFrom finish (.member v name) us'.tail := by
  rw [complete finish hTarget front _ rfl, accessesFrom_eq, if_pos (peek_of_token _ hDot),
    List.tail_cons]

theorem chain_bracketOpen (hOpen : t.token = .bracketOpen) (us' : List Lexeme) :
    outcome (chain finish (front ++ t :: us')) =
      (outcome (expression finish us')).bind fun key =>
        (after? .bracketClose key.2).bind fun rest =>
          accessesFrom finish (.index v key.1) rest := by
  rw [complete finish hTarget front _ rfl, accessesFrom_eq,
    if_neg (peek_ne_of_token _ _ hOpen (by simp)), if_pos (peek_of_token _ hOpen), List.tail_cons]

theorem blocked_fieldName (hDot : t.token = .dot) (hName : (peek us).bind identName? = none)
    (hPosition : err.position = position finish us) :
    Blocked finish .chain (front ++ t :: us) err := by
  refine blocked_here (front ++ [t]) hPosition (by simp) ⟨[.ident "x"], .member v "x", ?_⟩
    fun us' hPeek => ?_
  · rw [List.map_append, List.map_singleton, hDot, List.append_assoc]
    exact .field hTarget
  · rw [reader, List.append_assoc, List.singleton_append, chain_dot hTarget hDot, hPeek, hName,
      Option.bind_none]

theorem blocked_key (hOpen : t.token = .bracketOpen) (h : Blocked finish .expression us err) :
    Blocked finish .chain (front ++ t :: us) err := by
  refine h.lift (front ++ [t]) (by simp)
    (fun w k hw => ⟨[.bracketClose], .index v k, ?_⟩)
    fun us' _ (hNone : outcome (expression finish us') = none) => ?_
  · rw [List.map_append, List.map_singleton, hOpen]
    simpa using Derives.index hTarget hw
  · rw [reader, List.append_assoc, List.singleton_append, chain_bracketOpen hTarget hOpen, hNone,
      Option.bind_none]

theorem blocked_bracketClose {key : Parsed us Expr} (hOpen : t.token = .bracketOpen)
    (hKey : expression finish us = .ok key)
    (hClose : expect finish .bracketClose key.rest = .error err) :
    Blocked finish .chain (front ++ t :: us) err := by
  obtain ⟨-, used, hus, hUsed, hSame⟩ := expression_eq_ok hKey
  refine blocked_here (front ++ t :: used) (position_of_expect_error hClose) ?_
    ⟨[.bracketClose], .index v key.value, ?_⟩ fun us' hPeek => ?_
  · rw [List.append_assoc, List.cons_append, ← hus]
  · rw [List.map_append, List.map_cons, hOpen]
    simpa using Derives.index hTarget hUsed
  · rw [reader, List.append_assoc, List.cons_append, chain_bracketOpen hTarget hOpen,
      hSame us' hPeek, Option.bind_some,
      after?_congr (after?_of_expect_error finish hClose) hPeek, Option.bind_none]

end

/-- The loop over accesses, with the tokens of its target in front. -/
theorem blocked_accesses {target : Parsed ts Expr} (ih : Exact finish n)
    (hlt : target.rest.length < n) (hTarget : Derives .chain (front.map Lexeme.token) target.value)
    (h : accesses finish target = .error err) :
    Blocked finish .chain (front ++ target.rest) err := by
  obtain ⟨v, rest, shorter⟩ := target
  simp only at hlt hTarget ⊢
  -- by induction on what is left, with one more access in front
  induction hn : rest.length using Nat.strongRecOn generalizing front ts v rest with
  | _ m loop =>
    subst hn
    rw [accesses] at h
    cases rest with
    | nil => cases h
    | cons t us =>
      simp only at h
      rw [List.length_cons] at hlt
      split at h
      · next hDot =>
        cases us with
        | nil =>
          cases h
          exact blocked_fieldName hTarget hDot rfl rfl
        | cons f us =>
          simp only at h
          rw [List.length_cons] at hlt
          split at h
          · next name hField =>
            have hLonger :
                Derives .chain ((front ++ [t, f]).map Lexeme.token) (.member v name) := by
              rw [List.map_append, List.map_cons, List.map_singleton, hDot, hField]
              exact .field hTarget
            have hBlocked := loop us.length (by simp only [List.length_cons]; omega) _ _ _
              (by omega) hLonger h rfl
            rwa [List.append_assoc] at hBlocked
          · next hField =>
            cases h
            refine blocked_fieldName hTarget hDot ?_ rfl
            rw [peek_cons, Option.bind_some]
            cases hToken : f.token <;> first | rfl | exact absurd hToken (hField _)
      · split at h
        · next hOpen =>
          split at h
          · next hKey =>
            cases h
            exact blocked_key hTarget hOpen (ih.expression (Nat.lt_of_succ_lt hlt) hKey)
          · next key hKey =>
            split at h
            · next hClose =>
              cases h
              exact blocked_bracketClose hTarget hOpen hKey hClose
            · next close hClose =>
              obtain ⟨-, used, hus, hUsed, -⟩ := expression_eq_ok hKey
              obtain ⟨bracket, hBracket, hRest⟩ := expect_eq_ok hClose
              have hLonger : Derives .chain
                  ((front ++ t :: (used ++ [bracket])).map Lexeme.token) (.index v key.value) := by
                rw [List.map_append, List.map_cons, List.map_append, List.map_singleton, hOpen,
                  hBracket]
                exact .index hTarget hUsed
              have hKeyShorter := key.shorter
              have hCloseShorter := close.shorter
              have hBlocked := loop close.rest.length
                (by simp only [List.length_cons]; omega) _ _ _ (by omega) hLonger h rfl
              rw [hRest] at hus
              rw [hus]
              simpa using hBlocked
        · cases h

theorem blocked_chain (ih : Exact finish ts.length) (h : chain finish ts = .error err) :
    Blocked finish .chain ts err := by
  rw [chain] at h
  split at h
  · -- what stops the primary stops the chain that begins with it
    next hTarget =>
    cases h
    refine (blocked_primary ih hTarget).lift [] rfl
      (fun w e hw => begins_of_derives hw.primary)
      fun us' _ (hNone : outcome (primary finish us') = none) => ?_
    rw [reader, List.nil_append, outcome_chain, hNone, Option.bind_none]
  · next target hTarget =>
    obtain ⟨used, hts, hUsed⟩ := reads_primary finish (sound finish _)
      (show outcome (primary finish ts) = some (target.value, target.rest) from
        congrArg outcome hTarget)
    rw [hts]
    exact blocked_accesses ih target.shorter (.primary hUsed) h

/-! ## Operators -/

theorem blocked_unary (ih : Exact finish ts.length) (h : unary finish ts = .error err) :
    Blocked finish .unary ts err := by
  -- without an operator in front it is a chain, and a chain is stopped where its primary is
  have hChain : ∀ ts, chain finish ts = .error err → peek ts ≠ some .not → peek ts ≠ some .minus →
      Exact finish ts.length → Blocked finish .unary ts err := by
    intro ts h hNot hMinus ih
    refine (blocked_chain ih h).lift [] rfl (fun w e hw => begins_of_derives hw.chain)
      fun us' hPeek (hNone : outcome (chain finish us') = none) => ?_
    rw [reader, List.nil_append, outcome_unary, hPeek, if_neg hNot, if_neg hMinus, hNone]
  cases ts with
  | nil =>
    rw [unary] at h
    exact hChain [] h (by simp) (by simp) ih
  | cons t us =>
    rw [unary] at h
    split at h
    · next hNot =>
      split at h
      · next hOperand =>
        cases h
        refine (ih.unary (Nat.lt_succ_self _) hOperand).lift [t] rfl
          (fun w e hw => ⟨[], .unary .not e, ?_⟩)
          fun us' _ (hNone : outcome (unary finish us') = none) => ?_
        · rw [List.append_nil, List.map_singleton, hNot]
          exact .not hw
        · rw [reader, outcome_unary, List.singleton_append, if_pos (peek_of_token _ hNot),
            List.tail_cons, hNone, Option.bind_none]
      · cases h
    · next hNoNot =>
      split at h
      · next hMinus =>
        split at h
        · -- the operator belongs to the front, and any expression may follow it
          next hOperand =>
          cases h
          refine (ih.unary (Nat.lt_succ_self _) hOperand).lift [t] rfl
            (fun w e hw => ⟨[], .unary .negate e, ?_⟩)
            fun us' _ (hNone : outcome (unary finish us') = none) => ?_
          · rw [List.append_nil, List.map_singleton, hMinus]
            exact .negate hw
          · rw [reader, outcome_unary, List.singleton_append,
              if_neg (peek_ne_of_token _ _ hMinus (by simp)), if_pos (peek_of_token _ hMinus),
              List.tail_cons, hNone, Option.bind_none]
        · cases h
      · next hNoMinus =>
        exact hChain _ h (fun hEq => hNoNot (Option.some.inj hEq))
          (fun hEq => hNoMinus (Option.some.inj hEq)) ih

/-- The loop over infix operators, with the tokens of its left operand in front. The operand stands
at a level that the next operator fits under. -/
theorem blocked_binaryTail {lhs : Parsed ts Expr} (ih : Exact finish n) (hlt : lhs.rest.length < n)
    (hLeast : max least 1 ≤ level) (top : level ≤ 7) (hAccess : NoAccess lhs.rest)
    (hStops : Stops (level + 1) lhs.rest)
    (hLeft : Derives (.binary level) (front.map Lexeme.token) lhs.value)
    (h : binaryTail finish least lhs = .error err) :
    Blocked finish (.binary (max least 1)) (front ++ lhs.rest) err := by
  obtain ⟨v, rest, shorter⟩ := lhs
  simp only at hlt hAccess hStops hLeft ⊢
  -- the next operator stands at a lower level, or at the same one
  induction hn : rest.length using Nat.strongRecOn generalizing front ts v rest level with
  | _ m loop =>
    subst hn
    rw [binaryTail] at h
    cases rest with
    | nil => cases h
    | cons t us =>
      simp only at h
      rw [List.length_cons] at hlt
      split at h
      · cases h
      · next op hOp =>
        split at h
        · cases h
        · next hTight =>
          have hBounds := precedence_le op
          have hFits : op.precedence < level + 1 := hStops t.token op rfl hOp
          -- the left operand together with the operator and its right operand
          have hTree : ∀ {w r}, Derives (.binary (op.precedence + 1)) w r →
              Derives (.binary op.precedence) (front.map Lexeme.token ++ t.token :: w)
                (.binary op v r) := fun hRight =>
            .operator (mem_operators.2 ⟨hOp, rfl⟩)
              (hLeft.binary_of_le hBounds.1 (Nat.le_of_lt_succ hFits) top) hRight
          split at h
          · next hRight =>
            cases h
            have hBlocked := ih.binary (Nat.lt_of_succ_lt hlt) (by omega) hRight
            rw [Nat.max_eq_left (by omega)] at hBlocked
            refine hBlocked.lift (front ++ [t]) (by simp)
              (fun w r hw => ⟨[], .binary op v r, ?_⟩)
              fun us' _ (hNone : outcome (binary finish (op.precedence + 1) us') = none) => ?_
            · have hDerives := (hTree hw).binary_of_le (n := max least 1) (by omega) (by omega)
                (by omega)
              simpa using hDerives
            · have hHere := complete finish hLeft front (t :: us') (max least 1) rfl hLeast
                hAccess hStops
              rw [reader, List.append_assoc, List.singleton_append, hHere, binaryFrom_cons, hOp]
              simp only
              rw [if_neg (by omega), hNone, Option.bind_none]
          · next rhs hRight =>
            obtain ⟨hNoAccess, hNext, used, hus, hUsed, -⟩ := binary_eq_ok (by omega) (by omega)
              (show outcome (binary finish (op.precedence + 1) us) = some (rhs.value, rhs.rest) from
                congrArg outcome hRight)
            have hLonger : Derives (.binary op.precedence)
                ((front ++ t :: used).map Lexeme.token) (.binary op v rhs.value) := by
              rw [List.map_append, List.map_cons]
              exact hTree hUsed
            have hRightShorter := rhs.shorter
            have hBlocked := loop rhs.rest.length (by simp only [List.length_cons]; omega)
              (by omega) (by omega) _ _ _ (by omega) hNoAccess hNext hLonger h rfl
            rwa [List.append_assoc, List.cons_append, ← hus] at hBlocked

theorem blocked_binary (ih : Exact finish ts.length) (top : least ≤ 7)
    (h : binary finish least ts = .error err) :
    Blocked finish (.binary (max least 1)) ts err := by
  rw [binary] at h
  split at h
  · -- an operand that cannot be read stops the tower at every level above it
    next hOperand =>
    cases h
    refine (blocked_unary ih hOperand).lift [] rfl
      (fun w e hw => begins_of_derives
        (hw.operand.binary_of_le (Nat.le_max_right _ _) (by omega) (Nat.le_refl 7)))
      fun us' _ (hNone : outcome (unary finish us') = none) => ?_
    rw [reader, List.nil_append, outcome_binary, hNone, Option.bind_none]
  · -- with the first operand read, the failure is in what follows it
    next lhs hOperand =>
    obtain ⟨hAccess, used, hts, hUsed⟩ := unary_eq_ok hOperand
    rw [hts]
    exact blocked_binaryTail ih lhs.shorter (by omega) (Nat.le_refl 7) hAccess
      (stops_eight lhs.rest) (.operand hUsed) h

/-! ## Expressions and lists -/

theorem derives_nullWord : Derives .expression [.nullWord] (.literal .null) :=
  .plain ((Derives.operand (.chain (.primary .nullWord))).binary_of_le (Nat.le_refl 1) (by omega)
    (Nat.le_refl 7))

/-- After a condition and its question mark, whatever follows. -/
theorem outcome_conditional {cs us : List Lexeme} {c : Expr} {t : Lexeme}
    (hCondition : outcome (binary finish 1 (cs ++ t :: us)) = some (c, t :: us))
    (hQuestion : t.token = .question) :
    outcome (expression finish (cs ++ t :: us)) =
      (outcome (expression finish us)).bind fun a =>
        (after? .colon a.2).bind fun rest =>
          (outcome (expression finish rest)).bind fun b =>
            some (.conditional c a.1 b.1, b.2) := by
  rw [outcome_expression, outcome_binary_zero, hCondition, Option.bind_some,
    if_pos (peek_of_token _ hQuestion), List.tail_cons]

theorem blocked_expression (ih : Exact finish ts.length) (h : expression finish ts = .error err) :
    Blocked finish .expression ts err := by
  rw [expression] at h
  split at h
  · -- the reader goes by: condition, question mark, branch, colon, branch; at each of them it may
    -- stop, and the words read before it are the front of an expression still
    next hCondition =>
    cases h
    have hBlocked := blocked_binary ih (Nat.zero_le 7) hCondition
    refine hBlocked.lift [] rfl (fun w e hw => begins_of_derives hw.plain)
      fun us' _ (hNone : outcome (binary finish 1 us') = none) => ?_
    rw [reader, List.nil_append, outcome_expression, outcome_binary_zero, hNone, Option.bind_none]
  · next c hCondition =>
    split at h
    · cases h
    · next t us hRest =>
      split at h
      · next hQuestion =>
        obtain ⟨-, -, cs, hts, hcs, hSame⟩ := binary_eq_ok (Nat.le_refl 1) (by omega)
          (show outcome (binary finish 1 ts) = some (c.value, c.rest) by
            rw [← outcome_binary_zero, hCondition, outcome_ok])
        have hShorter := c.shorter
        rw [hRest] at hts hShorter
        rw [List.length_cons] at hShorter
        have hBranch := fun us' : List Lexeme =>
          outcome_conditional (hSame (t :: us') (by rw [hRest]; rfl)) hQuestion
        have hTree : ∀ {as bs a b}, Derives .expression as a → Derives .expression bs b →
            Derives .expression (cs.map Lexeme.token ++ t.token :: (as ++ .colon :: bs))
              (.conditional c.value a b) := by
          rw [hQuestion]
          exact fun ha hb => .conditional hcs ha hb
        split at h
        · -- it stops in the first branch: a colon and another branch would end the expression
          next hThen =>
          cases h
          refine (ih.expression (by omega) hThen).lift (cs ++ [t]) (by simp [hts])
            (fun w a hw => ⟨[.colon, .nullWord], .conditional c.value a (.literal .null), ?_⟩)
            fun us' _ (hNone : outcome (expression finish us') = none) => ?_
          · simpa using hTree hw derives_nullWord
          · rw [reader, List.append_assoc, List.singleton_append, hBranch, hNone, Option.bind_none]
        · next a hThen =>
          obtain ⟨-, as, hus, has, hSameThen⟩ := expression_eq_ok hThen
          have hThenShorter := a.shorter
          split at h
          · -- it stops where a colon is due
            next hColon =>
            cases h
            refine blocked_here (cs ++ t :: as) (position_of_expect_error hColon) ?_
              ⟨[.colon, .nullWord], .conditional c.value a.value (.literal .null), ?_⟩
              fun us' hPeek => ?_
            · rw [hts, List.append_assoc, List.cons_append, ← hus]
            · simpa using hTree has derives_nullWord
            · rw [reader, List.append_assoc, List.cons_append, hBranch, hSameThen us' hPeek,
                Option.bind_some, after?_congr (after?_of_expect_error finish hColon) hPeek,
                Option.bind_none]
          · next colon hColon =>
            obtain ⟨mark, hMark, hAfter⟩ := expect_eq_ok hColon
            have hColonShorter := colon.shorter
            split at h
            · -- it stops in the second branch
              next hElse =>
              cases h
              rw [hAfter] at hus
              refine (ih.expression (by omega) hElse).lift (cs ++ t :: (as ++ [mark]))
                (by simp [hts, hus])
                (fun w b hw => ⟨[], .conditional c.value a.value b, ?_⟩)
                fun us' _ (hNone : outcome (expression finish us') = none) => ?_
              · have hDerives := hTree has hw
                rw [← hMark] at hDerives
                simpa using hDerives
              · rw [reader, List.append_assoc, List.cons_append, List.append_assoc,
                  List.singleton_append, hBranch, hSameThen _ (by rw [hAfter]; rfl),
                  Option.bind_some, ← hMark, after?_cons_self, Option.bind_some, hNone,
                  Option.bind_none]
            · cases h
      · cases h

theorem blocked_items (ih : Exact finish ts.length) (h : items finish ts = .error err) :
    Blocked finish .items ts err := by
  rw [items] at h
  split at h
  · next hItem =>
    cases h
    refine (blocked_expression ih hItem).lift [] rfl
      (fun w e hw => begins_of_derives hw.lastItem)
      fun us' _ (hNone : outcome (expression finish us') = none) => ?_
    rw [reader, List.nil_append, outcome_items, hNone, Option.bind_none]
  · next item hItem =>
    obtain ⟨-, used, hts, hUsed, hSame⟩ := expression_eq_ok hItem
    split at h
    · -- it stops behind an item, where a comma or the bracket is due
      next hNext =>
      cases h
      obtain ⟨hClose, hComma⟩ := expectOr_error finish hNext
      refine blocked_here used (position_of_expectOr_error hNext) hts
        (begins_of_derives hUsed.lastItem)
        fun us' hPeek => ?_
      rw [reader, outcome_items, hSame us' hPeek, Option.bind_some, if_neg (hPeek ▸ hClose),
        after?_congr hComma hPeek, Option.bind_none]
    · cases h
    · next rest hShorter hNext =>
      split at h
      · -- it stops in the items behind a comma
        next hMore =>
        cases h
        obtain ⟨comma, hComma, hRest⟩ := after?_eq_some (expectOr_comma finish hNext).2
        have hItemShorter := item.shorter
        rw [hRest] at hts hSame
        refine (ih.items (by omega) hMore).lift (used ++ [comma]) (by simp [hts])
          (fun w es hw => ⟨[], item.value :: es, ?_⟩)
          fun us' _ (hNone : outcome (items finish us') = none) => ?_
        · have hDerives := Derives.item hUsed hw
          rw [← hComma] at hDerives
          simpa using hDerives
        · rw [reader, List.append_assoc, List.singleton_append, outcome_items,
            hSame (comma :: us') rfl, Option.bind_some,
            if_neg (peek_ne_of_token _ .bracketClose hComma (by simp)), ← hComma,
            after?_cons_self, Option.bind_some, hNone, Option.bind_none]
      · cases h

variable (finish) in
/-- After a key and its colon, whatever follows. -/
theorem outcome_entry {t mark : Lexeme} {name : String} (hText : keyText? t.token = some name)
    (hMark : mark.token = .colon) (us : List Lexeme) :
    outcome (entries finish (t :: mark :: us)) =
      (outcome (expression finish us)).bind fun item =>
        if peek item.2 = some .braceClose then some ([(name, item.1)], item.2.tail)
        else
          (after? .comma item.2).bind fun rest =>
            (outcome (entries finish rest)).bind fun more =>
              some ((name, item.1) :: more.1, more.2) := by
  rw [outcome_entries, peek_cons, Option.bind_some, hText, Option.bind_some, List.tail_cons,
    ← hMark, after?_cons_self, Option.bind_some]

theorem blocked_entries (ih : Exact finish ts.length) (h : entries finish ts = .error err) :
    Blocked finish .entries ts err := by
  rw [entries] at h
  split at h
  · -- it stops at the key: any key with a value would do there
    next hKey =>
    cases h
    obtain ⟨hPosition, hNone⟩ := entryKey_eq_error hKey
    refine blocked_here [] hPosition rfl
      ⟨[.ident "x", .colon, .nullWord], _, .lastEntry (.inr rfl) derives_nullWord⟩
      fun us' hPeek => ?_
    rw [reader, List.nil_append, outcome_entries, hPeek, hNone, Option.bind_none]
  · next key hKey =>
    obtain ⟨t, hts, hText⟩ := entryKey_eq_ok hKey
    have hName := keyText?_eq_some hText
    have hKeyShorter := key.shorter
    split at h
    · -- it stops where a colon is due
      next hColon =>
      cases h
      refine blocked_here [t] (position_of_expect_error hColon) hts
        ⟨[.colon, .nullWord], _, .lastEntry hName derives_nullWord⟩ fun us' hPeek => ?_
      rw [reader, outcome_entries, List.singleton_append, peek_cons, Option.bind_some, hText,
        Option.bind_some, List.tail_cons,
        after?_congr (after?_of_expect_error finish hColon) hPeek, Option.bind_none]
    · next colon hColon =>
      obtain ⟨mark, hMark, hAfter⟩ := expect_eq_ok hColon
      have hColonShorter := colon.shorter
      rw [hAfter] at hts
      have hEntry := outcome_entry finish hText hMark
      split at h
      · -- it stops in the value
        next hItem =>
        cases h
        refine (ih.expression (by omega) hItem).lift [t, mark] hts
          (fun w e hw => ⟨[], [(key.value, e)], ?_⟩)
          fun us' _ (hNone : outcome (expression finish us') = none) => ?_
        · rw [List.append_nil, List.map_cons, List.map_singleton, hMark]
          exact .lastEntry hName hw
        · rw [reader, List.cons_append, List.singleton_append, hEntry, hNone, Option.bind_none]
      · next item hItem =>
        obtain ⟨-, used, hus, hUsed, hSame⟩ := expression_eq_ok hItem
        have hItemShorter := item.shorter
        split at h
        · -- it stops behind an entry, where a comma or the brace is due
          next hNext =>
          cases h
          obtain ⟨hClose, hComma⟩ := expectOr_error finish hNext
          refine blocked_here (t :: mark :: used) (position_of_expectOr_error hNext)
            (hts.trans (congrArg (t :: mark :: ·) hus)) ⟨[], [(key.value, item.value)], ?_⟩
            fun us' hPeek => ?_
          · rw [List.append_nil, List.map_cons, List.map_cons, hMark]
            exact .lastEntry hName hUsed
          · rw [reader, List.cons_append, List.cons_append, hEntry, hSame us' hPeek,
              Option.bind_some, if_neg (hPeek ▸ hClose), after?_congr hComma hPeek,
              Option.bind_none]
        · cases h
        · next rest hShorter hNext =>
          split at h
          · -- it stops in the entries behind a comma
            next hMore =>
            cases h
            obtain ⟨comma, hComma, hRest⟩ := after?_eq_some (expectOr_comma finish hNext).2
            rw [hRest] at hus hSame
            refine (ih.entries (by omega) hMore).lift
              (t :: mark :: (used ++ [comma])) (by simp [hts, hus])
              (fun w es hw => ⟨[], (key.value, item.value) :: es, ?_⟩)
              fun us' _ (hNone : outcome (entries finish us') = none) => ?_
            · have hDerives := Derives.entry hName hUsed hw
              rw [← hComma, ← hMark] at hDerives
              simpa using hDerives
            · rw [reader, List.cons_append, List.cons_append, List.append_assoc,
                List.singleton_append, hEntry, hSame (comma :: us') rfl, Option.bind_some,
                if_neg (peek_ne_of_token _ .braceClose hComma (by simp)), ← hComma,
                after?_cons_self, Option.bind_some, hNone, Option.bind_none]
          · cases h

/-- Every reader that fails is blocked. -/
theorem exact (n : Nat) : Exact finish n := by
  induction n with
  | zero => constructor <;> exact fun hlt => absurd hlt (Nat.not_lt_zero _)
  | succ n ih =>
    have hAt : ∀ {m : Nat}, m < n + 1 → Exact finish m := fun hlt =>
      ih.mono (Nat.le_of_lt_succ hlt)
    constructor
    case expression => exact fun hlt h => blocked_expression (hAt hlt) h
    case binary => exact fun hlt top h => blocked_binary (hAt hlt) top h
    case unary => exact fun hlt h => blocked_unary (hAt hlt) h
    case items => exact fun hlt h => blocked_items (hAt hlt) h
    case entries => exact fun hlt h => blocked_entries (hAt hlt) h

end ItemComposition.Expr.Parser
