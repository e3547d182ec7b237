import ItemComposition.Proofs.Expr.Soundness

/-!
# What the readers do not miss

Every phrase of the grammar is read back, whatever follows it that cannot continue it, and its tree
is the result. The induction is on the derivation. For the phrases that a loop reads, the claim is
where the loop stands after them: a derivation of an infix expression ends inside the loop over
operators, and one of an access chain inside the loop over accesses.

## Key results

- `complete`: every phrase is read back
- `ofTokens_eq_ok_iff_derives`: the parser accepts exactly the expressions of the grammar, with
  their only tree
-/

namespace ItemComposition.Expr.Parser

open Grammar

variable (finish : Nat)

/-- Nothing follows that continues an access chain. -/
def NoAccess (rest : List Lexeme) : Prop := peek rest ≠ some .dot ∧ peek rest ≠ some .bracketOpen

/-- Nothing follows that continues an expression. -/
def Ends (rest : List Lexeme) : Prop :=
  NoAccess rest ∧ (∀ least, Stops least rest) ∧ peek rest ≠ some .question

/-- The reader of a phrase's kind reads it back in front of what cannot continue it. -/
def Complete : (p : Phrase) → List Token → p.Tree → Prop
  | .expression, w, e => ∀ ts rest, ts.map Lexeme.token = w → Ends rest →
      outcome (expression finish (ts ++ rest)) = some (e, rest)
  | .binary level, w, e => ∀ ts rest least, ts.map Lexeme.token = w → least ≤ level →
      NoAccess rest → Stops (level + 1) rest →
      outcome (binary finish least (ts ++ rest)) = binaryFrom finish least e rest
  | .unary, w, e => ∀ ts rest, ts.map Lexeme.token = w → NoAccess rest →
      outcome (unary finish (ts ++ rest)) = some (e, rest)
  | .chain, w, e => ∀ ts rest, ts.map Lexeme.token = w →
      outcome (chain finish (ts ++ rest)) = accessesFrom finish e rest
  | .primary, w, e => ∀ ts rest, ts.map Lexeme.token = w →
      outcome (primary finish (ts ++ rest)) = some (e, rest)
  | .items, w, es => ∀ ts close rest, ts.map Lexeme.token = w → close.token = .bracketClose →
      outcome (items finish (ts ++ close :: rest)) = some (es, rest)
  | .entries, w, es => ∀ ts close rest, ts.map Lexeme.token = w → close.token = .braceClose →
      outcome (entries finish (ts ++ close :: rest)) = some (es, rest)

/-! ## What ends a phrase -/

theorem Stops.mono {m n : Nat} {rest : List Lexeme} (h : Stops m rest) (le : m ≤ n) :
    Stops n rest := fun t op hPeek hOp => Nat.lt_of_lt_of_le (h t op hPeek hOp) le

theorem ends_nil : Ends [] := by
  refine ⟨⟨by simp, by simp⟩, ?_, by simp⟩
  intro least t op hPeek
  cases hPeek

/-- A closing bracket, a comma or a colon ends an expression. -/
theorem ends_cons {t : Lexeme} (rest : List Lexeme)
    (h : t.token ∈ [.parenClose, .bracketClose, .braceClose, .comma, .colon]) :
    Ends (t :: rest) := by
  obtain ⟨token, start⟩ := t
  simp only [List.mem_cons, List.not_mem_nil, or_false] at h
  refine ⟨⟨?_, ?_⟩, fun least u op hPeek hOp => ?_, ?_⟩
  · rcases h with rfl | rfl | rfl | rfl | rfl <;> simp
  · rcases h with rfl | rfl | rfl | rfl | rfl <;> simp
  · rw [← Option.some.inj hPeek] at hOp
    rcases h with rfl | rfl | rfl | rfl | rfl <;> cases hOp
  · rcases h with rfl | rfl | rfl | rfl | rfl <;> simp

/-- An operator of a level ends the phrases of that level, and is no access. -/
theorem stops_operator {level : Nat} {t : Lexeme} {op : BinaryOp} (rest : List Lexeme)
    (h : (t.token, op) ∈ operators level) :
    NoAccess (t :: rest) ∧ Stops (level + 1) (t :: rest) := by
  obtain ⟨hOp, rfl⟩ := mem_operators.1 h
  refine ⟨⟨fun hDot => ?_, fun hOpen => ?_⟩, fun u op' hPeek hOp' => ?_⟩
  · rw [Option.some.inj hDot] at hOp
    cases hOp
  · rw [Option.some.inj hOpen] at hOp
    cases hOp
  · rw [← Option.some.inj hPeek, hOp] at hOp'
    rw [Option.some.inj hOp']
    exact Nat.lt_succ_self _

theorem accessesFrom_of_noAccess {rest : List Lexeme} (v : Expr) (h : NoAccess rest) :
    accessesFrom finish v rest = some (v, rest) := by
  rw [accessesFrom_eq, if_neg h.1, if_neg h.2]

/-! ## Infix and prefix operators -/

section

variable {w ls rs : List Token} {e l r : Expr} {level : Nat}

theorem complete_plain (ih : Complete finish (.binary 1) w e) :
    Complete finish .expression w e := by
  intro ts rest hts hEnds
  obtain ⟨hAccess, hStops, hQuestion⟩ := hEnds
  rw [outcome_expression, ih ts rest 0 hts (Nat.zero_le 1) hAccess (hStops _),
    binaryFrom_of_stops finish e (hStops 0), Option.bind_some, if_neg hQuestion]

theorem complete_conditional {cs as bs : List Token} {c a b : Expr}
    (ihc : Complete finish (.binary 1) cs c) (iha : Complete finish .expression as a)
    (ihb : Complete finish .expression bs b) :
    Complete finish .expression (cs ++ .question :: (as ++ .colon :: bs))
      (.conditional c a b) := by
  intro ts rest hts hEnds
  obtain ⟨cs', tail, rfl, hcs, hTail⟩ := List.map_eq_append_iff.1 hts
  obtain ⟨question, tail, rfl, hQuestion, hTail⟩ := List.map_eq_cons_iff.1 hTail
  obtain ⟨as', tail, rfl, has, hTail⟩ := List.map_eq_append_iff.1 hTail
  obtain ⟨colon, bs', rfl, hColon, hbs⟩ := List.map_eq_cons_iff.1 hTail
  rw [List.append_assoc, List.cons_append, List.append_assoc, List.cons_append]
  -- the question mark ends the condition, the colon the first branch
  have hNoOp : ∀ least more, Stops least (question :: more) := by
    intro least more u op hPeek hOp
    rw [← Option.some.inj hPeek, hQuestion] at hOp
    cases hOp
  have hNoAccess : ∀ more, NoAccess (question :: more) := by
    intro more
    constructor <;> simp [hQuestion]
  rw [outcome_expression, ihc cs' _ 0 hcs (Nat.zero_le 1) (hNoAccess _) (hNoOp _ _),
    binaryFrom_of_stops finish c (hNoOp _ _), Option.bind_some,
    if_pos (peek_of_token _ hQuestion), List.tail_cons,
    iha as' _ has (ends_cons _ (by simp [hColon])), Option.bind_some, ← hColon,
    after?_cons_self, Option.bind_some, ihb bs' rest hbs hEnds, Option.bind_some]

theorem complete_tighter (ih : Complete finish (.binary (level + 1)) w e) :
    Complete finish (.binary level) w e := by
  intro ts rest least hts hLeast hAccess hStops
  exact ih ts rest least hts (Nat.le_succ_of_le hLeast) hAccess (hStops.mono (Nat.le_succ _))

theorem complete_operator {t : Token} {op : BinaryOp} (hOp : (t, op) ∈ operators level)
    (ihl : Complete finish (.binary level) ls l)
    (ihr : Complete finish (.binary (level + 1)) rs r) :
    Complete finish (.binary level) (ls ++ t :: rs) (.binary op l r) := by
  intro ts rest least hts hLeast hAccess hStops
  obtain ⟨ls', tail, rfl, hls, hTail⟩ := List.map_eq_append_iff.1 hts
  obtain ⟨infixed, rs', rfl, rfl, hrs⟩ := List.map_eq_cons_iff.1 hTail
  obtain ⟨hOpAccess, hOpStops⟩ := stops_operator (rs' ++ rest) hOp
  obtain ⟨hToken, rfl⟩ := mem_operators.1 hOp
  rw [List.append_assoc, List.cons_append, ihl ls' _ least hls hLeast hOpAccess hOpStops,
    binaryFrom_cons, hToken]
  simp only
  -- the right operand ends where the whole does, since nothing tighter follows
  rw [if_neg (Nat.not_lt.2 hLeast),
    ihr rs' rest _ hrs (Nat.le_refl _) hAccess (hStops.mono (Nat.le_succ _)),
    binaryFrom_of_stops finish r hStops, Option.bind_some]

theorem complete_operand (ih : Complete finish .unary w e) :
    Complete finish (.binary 7) w e := by
  -- the reader of an infix expression begins with an operand whatever the threshold is
  intro ts rest least hts _ hAccess _
  rw [outcome_binary, ih ts rest hts hAccess, Option.bind_some]

theorem complete_not (ih : Complete finish .unary w e) :
    Complete finish .unary (.not :: w) (.unary .not e) := by
  intro ts rest hts hAccess
  obtain ⟨t, ts', rfl, hNot, hts'⟩ := List.map_eq_cons_iff.1 hts
  rw [List.cons_append, outcome_unary, if_pos (peek_of_token _ hNot), List.tail_cons,
    ih ts' rest hts' hAccess, Option.bind_some]

theorem complete_negate (ih : Complete finish .unary w e) :
    Complete finish .unary (.minus :: w) (.unary .negate e) := by
  intro ts rest hts hAccess
  obtain ⟨t, ts', rfl, hMinus, hts'⟩ := List.map_eq_cons_iff.1 hts
  rw [List.cons_append, outcome_unary, if_neg (peek_ne_of_token _ .not hMinus (by simp)),
    if_pos (peek_of_token _ hMinus), List.tail_cons, ih ts' rest hts' hAccess, Option.bind_some]

theorem complete_unary_chain (h : Derives .chain w e) (ih : Complete finish .chain w e) :
    Complete finish .unary w e := by
  intro ts rest hts hAccess
  -- a chain begins with no prefix operator
  obtain ⟨first, us, rfl, -, -, hHead⟩ := h.exists_head
  obtain ⟨hNot, hMinus⟩ := hHead (.inl rfl)
  obtain ⟨t, ts', rfl, rfl, -⟩ := List.map_eq_cons_iff.1 hts
  rw [outcome_unary, List.cons_append, if_neg (peek_ne_of_token _ _ rfl hNot),
    if_neg (peek_ne_of_token _ _ rfl hMinus), ← List.cons_append, ih _ rest hts,
    accessesFrom_of_noAccess finish e hAccess]

/-! ## Access chains -/

theorem complete_primary (ih : Complete finish .primary w e) : Complete finish .chain w e := by
  intro ts rest hts
  rw [outcome_chain, ih ts rest hts, Option.bind_some]

theorem complete_field {name : String} (ih : Complete finish .chain w e) :
    Complete finish .chain (w ++ [.dot, .ident name]) (.member e name) := by
  intro ts rest hts
  obtain ⟨ts', tail, rfl, hts', hTail⟩ := List.map_eq_append_iff.1 hts
  obtain ⟨dot, tail, rfl, hDot, hTail⟩ := List.map_eq_cons_iff.1 hTail
  obtain ⟨field, rfl, hField⟩ := List.map_eq_singleton_iff.1 hTail
  rw [List.append_assoc, ih ts' _ hts', accessesFrom_eq,
    List.cons_append, if_pos (peek_of_token _ hDot), List.tail_cons, List.cons_append, peek_cons,
    hField, Option.bind_some, identName?, Option.bind_some, List.tail_cons, List.nil_append]

theorem complete_index {ks : List Token} {k : Expr} (ih : Complete finish .chain w e)
    (ihk : Complete finish .expression ks k) :
    Complete finish .chain (w ++ .bracketOpen :: (ks ++ [.bracketClose])) (.index e k) := by
  intro ts rest hts
  obtain ⟨ts', tail, rfl, hts', hTail⟩ := List.map_eq_append_iff.1 hts
  obtain ⟨bracket, tail, rfl, hOpen, hTail⟩ := List.map_eq_cons_iff.1 hTail
  obtain ⟨ks', tail, rfl, hks, hTail⟩ := List.map_eq_append_iff.1 hTail
  obtain ⟨close, rfl, hClose⟩ := List.map_eq_singleton_iff.1 hTail
  rw [List.append_assoc, ih ts' _ hts', accessesFrom_eq,
    List.cons_append, if_neg (peek_ne_of_token _ .dot hOpen (by simp)),
    if_pos (peek_of_token _ hOpen), List.tail_cons, List.append_assoc, List.singleton_append,
    ihk ks' _ hks (ends_cons _ (by simp [hClose])), Option.bind_some, ← hClose, after?_cons_self, Option.bind_some]

/-! ## Literals and brackets -/

theorem complete_single {t : Token} {e : Expr}
    (h : ∀ start rest, outcome (primary finish (⟨t, start⟩ :: rest)) = some (e, rest)) :
    Complete finish .primary [t] e := by
  intro ts rest hts
  obtain ⟨⟨token, start⟩, rfl, rfl⟩ := List.map_eq_singleton_iff.1 hts
  exact h start rest

theorem complete_parens (ih : Complete finish .expression w e) :
    Complete finish .primary (.parenOpen :: (w ++ [.parenClose])) e := by
  intro ts rest hts
  obtain ⟨paren, tail, rfl, hOpen, hTail⟩ := List.map_eq_cons_iff.1 hts
  obtain ⟨ts', tail, rfl, hts', hTail⟩ := List.map_eq_append_iff.1 hTail
  obtain ⟨close, rfl, hClose⟩ := List.map_eq_singleton_iff.1 hTail
  rw [List.cons_append, outcome_primary_cons, hOpen]
  simp only
  rw [List.append_assoc, List.singleton_append, ih ts' _ hts' (ends_cons _ (by simp [hClose])),
    Option.bind_some, ← hClose, after?_cons_self, Option.bind_some]

theorem complete_emptyArray :
    Complete finish .primary [.bracketOpen, .bracketClose] (.array []) := by
  intro ts rest hts
  obtain ⟨bracket, tail, rfl, hOpen, hTail⟩ := List.map_eq_cons_iff.1 hts
  obtain ⟨close, rfl, hClose⟩ := List.map_eq_singleton_iff.1 hTail
  rw [List.cons_append, outcome_primary_cons, hOpen]
  simp only
  rw [List.singleton_append, if_pos (peek_of_token _ hClose), List.tail_cons]

theorem complete_emptyObject :
    Complete finish .primary [.braceOpen, .braceClose] (.object []) := by
  intro ts rest hts
  obtain ⟨brace, tail, rfl, hOpen, hTail⟩ := List.map_eq_cons_iff.1 hts
  obtain ⟨close, rfl, hClose⟩ := List.map_eq_singleton_iff.1 hTail
  rw [List.cons_append, outcome_primary_cons, hOpen]
  simp only
  rw [List.singleton_append, if_pos (peek_of_token _ hClose), List.tail_cons]

theorem complete_array {es : List Expr} (h : Derives .items w es)
    (ih : Complete finish .items w es) :
    Complete finish .primary (.bracketOpen :: (w ++ [.bracketClose])) (.array es) := by
  intro ts rest hts
  obtain ⟨bracket, tail, rfl, hOpen, hTail⟩ := List.map_eq_cons_iff.1 hts
  obtain ⟨ts', tail, rfl, hts', hTail⟩ := List.map_eq_append_iff.1 hTail
  obtain ⟨close, rfl, hClose⟩ := List.map_eq_singleton_iff.1 hTail
  -- an item does not begin with the closing bracket
  obtain ⟨first, us, rfl, hFirst, -, -⟩ := h.exists_head
  obtain ⟨t, ts', rfl, rfl, -⟩ := List.map_eq_cons_iff.1 hts'
  have hPeek : peek (t :: ts' ++ close :: rest) ≠ some .bracketClose :=
    peek_ne_of_token _ _ rfl hFirst
  rw [List.cons_append, outcome_primary_cons, hOpen]
  simp only
  rw [List.append_assoc, List.singleton_append, if_neg hPeek,
    ih _ close rest hts' hClose, Option.bind_some]

theorem complete_object {es : List (String × Expr)} (h : Derives .entries w es)
    (ih : Complete finish .entries w es) :
    Complete finish .primary (.braceOpen :: (w ++ [.braceClose])) (.object es) := by
  intro ts rest hts
  obtain ⟨brace, tail, rfl, hOpen, hTail⟩ := List.map_eq_cons_iff.1 hts
  obtain ⟨ts', tail, rfl, hts', hTail⟩ := List.map_eq_append_iff.1 hTail
  obtain ⟨close, rfl, hClose⟩ := List.map_eq_singleton_iff.1 hTail
  -- nor does an entry with the closing brace
  obtain ⟨first, us, rfl, -, hFirst, -⟩ := h.exists_head
  obtain ⟨t, ts', rfl, rfl, -⟩ := List.map_eq_cons_iff.1 hts'
  have hPeek : peek (t :: ts' ++ close :: rest) ≠ some .braceClose :=
    peek_ne_of_token _ _ rfl hFirst
  rw [List.cons_append, outcome_primary_cons, hOpen]
  simp only
  rw [List.append_assoc, List.singleton_append, if_neg hPeek,
    ih _ close rest hts' hClose, Option.bind_some]

/-! ## Lists of items and entries -/

theorem complete_lastItem (ih : Complete finish .expression w e) :
    Complete finish .items w [e] := by
  intro ts close rest hts hClose
  rw [outcome_items, ih ts _ hts (ends_cons _ (by simp [hClose])), Option.bind_some,
    if_pos (peek_of_token _ hClose), List.tail_cons]

theorem complete_item {us : List Token} {es : List Expr} (ih : Complete finish .expression w e)
    (ihs : Complete finish .items us es) :
    Complete finish .items (w ++ .comma :: us) (e :: es) := by
  intro ts close rest hts hClose
  obtain ⟨ts', tail, rfl, hts', hTail⟩ := List.map_eq_append_iff.1 hts
  obtain ⟨comma, us', rfl, hComma, hus⟩ := List.map_eq_cons_iff.1 hTail
  rw [List.append_assoc, List.cons_append, outcome_items,
    ih ts' _ hts' (ends_cons _ (by simp [hComma])), Option.bind_some,
    if_neg (peek_ne_of_token _ .bracketClose hComma (by simp)), ← hComma, after?_cons_self,
    Option.bind_some,
    ihs us' close rest hus hClose, Option.bind_some]

theorem complete_lastEntry {key : Token} {name : String}
    (hKey : key = .str name ∨ key = .ident name) (ih : Complete finish .expression w e) :
    Complete finish .entries (key :: .colon :: w) [(name, e)] := by
  intro ts close rest hts hClose
  obtain ⟨first, tail, rfl, rfl, hTail⟩ := List.map_eq_cons_iff.1 hts
  obtain ⟨colon, ts', rfl, hColon, hts'⟩ := List.map_eq_cons_iff.1 hTail
  rw [List.cons_append, List.cons_append, outcome_entries, peek_cons, Option.bind_some,
    keyText?_of_key hKey, Option.bind_some, List.tail_cons, ← hColon, after?_cons_self,
    Option.bind_some, ih ts' _ hts' (ends_cons _ (by simp [hClose])), Option.bind_some,
    if_pos (peek_of_token _ hClose), List.tail_cons]

theorem complete_entry {key : Token} {name : String} {us : List Token}
    {es : List (String × Expr)} (hKey : key = .str name ∨ key = .ident name)
    (ih : Complete finish .expression w e) (ihs : Complete finish .entries us es) :
    Complete finish .entries (key :: .colon :: (w ++ .comma :: us)) ((name, e) :: es) := by
  intro ts close rest hts hClose
  -- the words of the phrase are split into those of the key, the colon, the value, the comma, the
  -- rest
  obtain ⟨first, tail, rfl, rfl, hTail⟩ := List.map_eq_cons_iff.1 hts
  obtain ⟨colon, tail, rfl, hColon, hTail⟩ := List.map_eq_cons_iff.1 hTail
  obtain ⟨ts', tail, rfl, hts', hTail⟩ := List.map_eq_append_iff.1 hTail
  obtain ⟨comma, us', rfl, hComma, hus⟩ := List.map_eq_cons_iff.1 hTail
  rw [List.cons_append, List.cons_append, outcome_entries, peek_cons, Option.bind_some,
    keyText?_of_key hKey, Option.bind_some, List.tail_cons, ← hColon, after?_cons_self,
    Option.bind_some, List.append_assoc, List.cons_append,
    ih ts' _ hts' (ends_cons _ (by simp [hComma])), Option.bind_some,
    if_neg (peek_ne_of_token _ .braceClose hComma (by simp)), ← hComma, after?_cons_self,
    Option.bind_some,
    ihs us' close rest hus hClose, Option.bind_some]

end

/-- Every phrase is read back, one rule at a time. -/
theorem complete {p : Phrase} {w : List Token} {e : p.Tree} (h : Derives p w e) :
    Complete finish p w e := by
  -- one lemma a rule of the grammar; these phrases are single tokens
  induction h with
  | plain _ ih => exact complete_plain finish ih
  | conditional _ _ _ ihc iha ihb => exact complete_conditional finish ihc iha ihb
  | tighter _ _ _ ih => exact complete_tighter finish ih
  | operator hOp _ _ ihl ihr => exact complete_operator finish hOp ihl ihr
  | operand _ ih => exact complete_operand finish ih
  | not _ ih => exact complete_not finish ih
  | negate _ ih => exact complete_negate finish ih
  | chain h ih => exact complete_unary_chain finish h ih
  | primary _ ih => exact complete_primary finish ih
  | field _ ih => exact complete_field finish ih
  | index _ _ ih ihk => exact complete_index finish ih ihk
  | number | text | trueWord | falseWord | nullWord | ident =>
    refine complete_single finish fun start rest => ?_
    rw [outcome_primary_cons]
  | parens _ ih => exact complete_parens finish ih
  | emptyArray => exact complete_emptyArray finish
  | array h ih => exact complete_array finish h ih
  | emptyObject => exact complete_emptyObject finish
  | object h ih => exact complete_object finish h ih
  | lastItem _ ih => exact complete_lastItem finish ih
  | item _ _ ih ihs => exact complete_item finish ih ihs
  | lastEntry hKey _ ih => exact complete_lastEntry finish hKey ih
  | entry hKey _ _ ih ihs => exact complete_entry finish hKey ih ihs

/-! ## All the tokens -/

theorem outcome_expression_eq_some_iff {ts : List Lexeme} {e : Expr} :
    outcome (expression finish ts) = some (e, []) ↔
      Derives .expression (ts.map Lexeme.token) e := by
  constructor
  · intro h
    obtain ⟨used, hts, hUsed⟩ := (sound finish _).expression (Nat.lt_succ_self ts.length) h
    rwa [hts, List.append_nil]
  · intro h
    have hRead := complete finish h ts [] rfl ends_nil
    rwa [List.append_nil] at hRead

/-- The parser accepts exactly the expressions of the grammar, and returns the tree that the
grammar gives them. There is no other tree, whatever the parser does. -/
theorem ofTokens_eq_ok_iff_derives (ts : List Lexeme) (e : Expr) :
    (Expr.ofTokens finish ts = .ok e ↔ Derives .expression (ts.map Lexeme.token) e) ∧
      ∀ e', Derives .expression (ts.map Lexeme.token) e →
        Derives .expression (ts.map Lexeme.token) e' → e' = e := by
  refine ⟨(ofTokens_eq_ok finish).trans (outcome_expression_eq_some_iff finish), ?_⟩
  intro e' h h'
  rw [← outcome_expression_eq_some_iff finish] at h h'
  exact (Prod.mk.inj (Option.some.inj (h'.symm.trans h))).1

/-- Differences group to the left. -/
theorem ofTokens_eq_ok_iff_derives_differences :
    Expr.ofTokens 5 [⟨.ident "a", 0⟩, ⟨.minus, 1⟩, ⟨.ident "b", 2⟩, ⟨.minus, 3⟩, ⟨.ident "c", 4⟩] =
      .ok (.binary .sub (.binary .sub (.ident "a") (.ident "b")) (.ident "c")) := by
  have hName : ∀ name level, 1 ≤ level → level ≤ 7 →
      Derives (.binary level) [.ident name] (.ident name) := fun name level pos top =>
    Derives.binary_of_le (.operand (.chain (.primary .ident))) pos top (Nat.le_refl 7)
  have hMinus : (Token.minus, BinaryOp.sub) ∈ operators 5 := by simp [operators]
  have hFirst := Derives.operator hMinus (hName "a" 5 (by decide) (by decide))
    (hName "b" 6 (by decide) (by decide))
  have hBoth := Derives.operator hMinus hFirst (hName "c" 6 (by decide) (by decide))
  exact (ofTokens_eq_ok_iff_derives 5 _ _).1.2
    (.plain (hBoth.binary_of_le (Nat.le_refl 1) (by decide) (by decide)))

end ItemComposition.Expr.Parser
