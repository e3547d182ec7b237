import ItemComposition.Proofs.Expr.Completeness
import ItemComposition.Proofs.Expr.Spelling

/-!
# Printed expressions are read back

The text of a tree is read as tokens that the grammar derives the tree from, in every place that
asks for no more than the level of the tree. The induction is on the tree: each construct of the
language is one lemma about texts that are already printed, and parentheses turn a text that is
printed for its own level into one that is printed for every level.

## Key results

- `Printed.enclosed`: parentheses exactly where the level is too low
- `printed_bareText`: every printable tree is printed for its level
- `parse_print`: parsing undoes printing
-/

namespace ItemComposition.Expr

open Grammar Lexeme

/-! ## Places

The places of an expression by what they ask for: any expression at `0`, the operands of the infix
operators at `1` to `7`, the operand of a prefix operator at `7` as well, the target of an access
at `8`. -/

/-- The tokens stand for the tree in every place up to a level. -/
structure StandsFor (n : Nat) (ts : List Token) (e : Expr) : Prop where
  expression : Derives .expression ts e
  binary : ∀ m, 1 ≤ m → m ≤ n → m ≤ 7 → Derives (.binary m) ts e
  unary : 7 ≤ n → Derives .unary ts e
  chain : 8 ≤ n → Derives .chain ts e

namespace StandsFor

variable {n m : Nat} {ts : List Token} {e : Expr}

theorem mono (h : StandsFor n ts e) (le : m ≤ n) : StandsFor m ts e :=
  ⟨h.expression, fun k pos hk => h.binary k pos (Nat.le_trans hk le),
    fun hm => h.unary (Nat.le_trans hm le), fun hm => h.chain (Nat.le_trans hm le)⟩

theorem of_expression (h : Derives .expression ts e) : StandsFor 0 ts e :=
  ⟨h, by omega, by omega, by omega⟩

theorem of_binary (h : Derives (.binary n) ts e) (pos : 1 ≤ n) (top : n ≤ 6) :
    StandsFor n ts e := by
  have hBelow : ∀ m, 1 ≤ m → m ≤ n → Derives (.binary m) ts e := fun m hm le =>
    h.binary_of_le hm le (by omega)
  exact ⟨.plain (hBelow 1 (by omega) pos), fun m hm le _ => hBelow m hm le, by omega, by omega⟩

theorem of_unary (h : Derives .unary ts e) : StandsFor 7 ts e := by
  have hBelow : ∀ m, 1 ≤ m → m ≤ 7 → Derives (.binary m) ts e := fun m hm le =>
    (Derives.operand h).binary_of_le hm le (Nat.le_refl 7)
  exact ⟨.plain (hBelow 1 (by omega) (by omega)), fun m hm _ top => hBelow m hm top, fun _ => h,
    by omega⟩

theorem of_chain (h : Derives .chain ts e) : StandsFor 8 ts e := by
  have hUnary := of_unary (.chain h)
  exact ⟨hUnary.expression, fun m hm _ top => hUnary.binary m hm top top, fun _ => .chain h,
    fun _ => h⟩

theorem of_primary (h : Derives .primary ts e) : StandsFor 8 ts e := of_chain (.primary h)

end StandsFor

/-! ## Printed texts -/

/-- The text is read as the tree in every place up to a level. It does not begin like the rest of a
longer sign, so that it can follow an exclamation mark. -/
structure Printed (n : Nat) (cs : List Char) (e : Expr) : Prop where
  head : ∀ rest, (cs ++ rest).head? ≠ some '='
  read : ∃ ts, Spells cs ts ∧ StandsFor n ts e

/-- A character that begins a text. -/
theorem head_cons {c : Char} (h : c ≠ '=') (cs rest : List Char) :
    (c :: cs ++ rest).head? ≠ some '=' := by
  simp [h]

theorem head_append {cs : List Char} (h : ∀ rest, (cs ++ rest).head? ≠ some '=')
    (ds rest : List Char) : (cs ++ ds ++ rest).head? ≠ some '=' := by
  rw [List.append_assoc]
  exact h _

namespace Printed

variable {n : Nat} {cs ds : List Char} {e l r : Expr}

theorem mono {m : Nat} (h : Printed n cs e) (le : m ≤ n) : Printed m cs e := by
  obtain ⟨ts, hSpells, hStands⟩ := h.read
  exact ⟨h.head, ts, hSpells, hStands.mono le⟩

/-- Parentheses stand where the level is too low, and make it the highest. -/
theorem enclosed (h : Printed e.level cs e) {least : Nat} (top : least ≤ 8) :
    Printed least (e.enclosed least cs) e := by
  unfold Expr.enclosed
  split
  · obtain ⟨ts, hSpells, hStands⟩ := h.read
    refine ⟨head_cons (by decide) _, .parenOpen :: (ts ++ [.parenClose]), ?_, ?_⟩
    · exact .sign (by decide)
        (hSpells.append_cons (.sign (by decide) .nil) (by decide) (by decide))
    · exact (StandsFor.of_primary (.parens hStands.expression)).mono top
  · exact h.mono (by omega)

end Printed

/-! ## Words and literals -/

theorem spells_word {word : String} {c : Char} {w : List Char} (hChars : word.toList = c :: w)
    (hStart : Token.isWordStart c = true) (hPart : w.all Token.isWordPart = true) :
    Spells word.toList [Token.ofWord word] := by
  intro rest hRest
  rw [hChars, tokens?_word hStart hPart hRest, ← hChars, String.ofList_toList]
  rfl

/-- A name is a word that is read as an identifier. -/
theorem exists_chars_of_isName {name : String} (h : Token.isName name = true) :
    ∃ c w, name.toList = c :: w ∧ Token.isWordStart c = true ∧ w.all Token.isWordPart = true ∧
      Token.ofWord name = .ident name := by
  unfold Token.isName at h
  split at h
  · cases h
  · next c w hChars =>
    simp only [Bool.and_eq_true, Bool.not_eq_true', List.contains_eq_mem, decide_eq_false_iff_not,
      Token.keywords, List.mem_cons, List.not_mem_nil, or_false, not_or] at h
    obtain ⟨⟨hStart, hPart⟩, hTrue, hFalse, hNull, hNil, hIn⟩ := h
    exact ⟨c, w, hChars, hStart, hPart, by simp [Token.ofWord, hTrue, hFalse, hNull, hNil, hIn]⟩

theorem spells_name {name : String} (h : Token.isName name = true) :
    Spells name.toList [.ident name] := by
  obtain ⟨c, w, hChars, hStart, hPart, hWord⟩ := exists_chars_of_isName h
  rw [← hWord]
  exact spells_word hChars hStart hPart

theorem head_of_isWordPart {c : Char} (h : Token.isWordPart c = true) (cs rest : List Char) :
    (c :: cs ++ rest).head? ≠ some '=' := by
  refine head_cons ?_ cs rest
  rintro rfl
  exact absurd h (by decide)

theorem head_natDigits (n : Nat) (rest : List Char) :
    (Decimal.natDigits n ++ rest).head? ≠ some '=' := by
  have hDigits : ∀ c ∈ Decimal.natDigits n, c.isDigit = true := fun c hc =>
    Nat.isDigit_of_mem_toDigits (by decide) (by decide) hc
  have hNonempty : Decimal.natDigits n ≠ [] := Nat.toDigits_ne_nil
  obtain ⟨c, w, hChars⟩ := List.exists_cons_of_ne_nil hNonempty
  rw [hChars] at hDigits ⊢
  exact head_of_isWordPart (Token.isWordPart_of_isDigit (hDigits c List.mem_cons_self)) w rest

namespace Printed

/-- A literal is a single token. -/
theorem of_token {cs : List Char} {e : Expr} {t : Token} (hSpells : Spells cs [t])
    (hHead : ∀ rest, (cs ++ rest).head? ≠ some '=') (h : Derives .primary [t] e) :
    Printed 8 cs e :=
  ⟨hHead, [t], hSpells, .of_primary h⟩

theorem numeral {n : Nat} (small : n < Nat.pow 2 53) :
    Printed 8 (Decimal.natDigits n) (.literal (.num (.int n))) := by
  rw [← Json.ofFloat_numberValue small]
  exact of_token (fun rest hRest => tokens?_numeral n hRest) (head_natDigits n) .number

theorem literal {value : Json} (h : value.isLiteral = true) :
    Printed 8 value.literalText (.literal value) := by
  cases value with
  | null =>
    exact of_token (spells_word rfl rfl rfl) (head_cons (by decide) _) .nullWord
  | bool b =>
    cases b with
    | false => exact of_token (spells_word rfl rfl rfl) (head_cons (by decide) _) .falseWord
    | true => exact of_token (spells_word rfl rfl rfl) (head_cons (by decide) _) .trueWord
  | str text =>
    exact of_token (fun rest _ => tokens?_quotedText text rest) (head_cons (by decide) _) .text
  | num n =>
    cases n with
    | int n =>
      -- only numbers that the reader keeps exactly have a written form
      simp only [Json.isLiteral, Bool.and_eq_true, decide_eq_true_eq] at h
      obtain ⟨n, rfl⟩ := Int.eq_ofNat_of_zero_le h.1
      have hText : (Json.num (.int n)).literalText = Decimal.natDigits n := String.toList_ofList
      rw [hText]
      exact numeral (by exact_mod_cast h.2)
    | float x => cases h
  | arr items => cases h
  | obj members => cases h

theorem ident {name : String} (h : Token.isName name = true) :
    Printed 8 name.toList (.ident name) := by
  obtain ⟨c, w, hChars, hStart, -, -⟩ := exists_chars_of_isName h
  refine of_token (spells_name h) ?_ .ident
  rw [hChars]
  exact head_of_isWordPart (Token.isWordPart_of_isWordStart hStart) w

end Printed

/-! ## The constructs of the language -/

namespace Printed

variable {n : Nat} {cs ds : List Char} {e l r : Expr}

theorem member (h : Printed 8 cs e) {name : String} (hName : Token.isName name = true) :
    Printed 8 (cs ++ '.' :: name.toList) (.member e name) := by
  obtain ⟨ts, hSpells, hStands⟩ := h.read
  obtain ⟨c, w, hChars, hStart, -, -⟩ := exists_chars_of_isName hName
  refine ⟨head_append h.head _, ts ++ [.dot, .ident name], ?_, ?_⟩
  · refine hSpells.append (.sign (by decide) (spells_name hName)) fun rest => ?_
    rw [hChars]
    exact separates_dot hStart (w ++ rest)
  · exact .of_chain (.field (hStands.chain (Nat.le_refl 8)))

theorem index (h : Printed 8 cs e) {k : Expr} (hk : Printed 0 ds k) :
    Printed 8 (cs ++ '[' :: (ds ++ [']'])) (.index e k) := by
  obtain ⟨ts, hSpells, hStands⟩ := h.read
  obtain ⟨us, hKey, hKeyStands⟩ := hk.read
  refine ⟨head_append h.head _, ts ++ .bracketOpen :: (us ++ [.bracketClose]), ?_, ?_⟩
  · have hClose : Spells [']'] [.bracketClose] := .sign (by decide) .nil
    exact hSpells.append_cons
      (.sign (by decide) (hKey.append_cons hClose (by decide) (by decide)))
      (by decide) (by decide)
  · exact .of_chain (.index (hStands.chain (Nat.le_refl 8)) hKeyStands.expression)

theorem unary (op : UnaryOp) (h : Printed 7 cs e) :
    Printed 7 (op.symbol.toList ++ cs) (.unary op e) := by
  obtain ⟨ts, hSpells, hStands⟩ := h.read
  cases op with
  | not =>
    exact ⟨head_cons (by decide) _, .not :: ts, .not h.head hSpells,
      .of_unary (.not (hStands.unary (Nat.le_refl 7)))⟩
  | negate =>
    exact ⟨head_cons (by decide) _, .minus :: ts, .sign (by decide) hSpells,
      .of_unary (.negate (hStands.unary (Nat.le_refl 7)))⟩

theorem binary (op : BinaryOp) (hl : Printed op.precedence cs l)
    (hr : Printed (op.precedence + 1) ds r) :
    Printed op.precedence (cs ++ ' ' :: (op.symbol.toList ++ ' ' :: ds)) (.binary op l r) := by
  obtain ⟨ts, hLeft, hLeftStands⟩ := hl.read
  obtain ⟨us, hRight, hRightStands⟩ := hr.read
  obtain ⟨pos, top⟩ := precedence_le op
  refine ⟨head_append hl.head _, ts ++ operatorToken op :: us, ?_, ?_⟩
  · exact hLeft.append_cons (.blank (.operator op hRight)) (by decide) (by decide)
  · refine .of_binary (.operator ?_ (hLeftStands.binary _ pos (Nat.le_refl _) (by omega))
      (hRightStands.binary _ (by omega) (Nat.le_refl _) (by omega))) pos top
    exact mem_operators.2 ⟨by cases op <;> rfl, rfl⟩

theorem conditional {as bs : List Char} {c a b : Expr} (hc : Printed 1 cs c)
    (ha : Printed 0 as a) (hb : Printed 0 bs b) :
    Printed 0 (cs ++ ' ' :: '?' :: ' ' :: (as ++ ' ' :: ':' :: ' ' :: bs))
      (.conditional c a b) := by
  obtain ⟨ts, hCondition, hConditionStands⟩ := hc.read
  obtain ⟨us, hTrue, hTrueStands⟩ := ha.read
  obtain ⟨vs, hFalse, hFalseStands⟩ := hb.read
  -- each sign stands between blanks, so no two words run together
  refine ⟨head_append hc.head _, ts ++ .question :: (us ++ .colon :: vs), ?_, ?_⟩
  · have hColon : Spells (':' :: ' ' :: bs) (.colon :: vs) := .sign (by decide) (.blank hFalse)
    have hQuestion : Spells ('?' :: ' ' :: (as ++ ' ' :: ':' :: ' ' :: bs))
        (.question :: (us ++ .colon :: vs)) :=
      .sign (by decide) (.blank (hTrue.append_cons (.blank hColon) (by decide) (by decide)))
    exact hCondition.append_cons (.blank hQuestion) (by decide) (by decide)
  · exact .of_expression (.conditional
      (hConditionStands.binary 1 (Nat.le_refl 1) (Nat.le_refl 1) (by decide))
      hTrueStands.expression hFalseStands.expression)

end Printed

/-! ## Lists of items and entries -/

/-- Texts with a comma and a blank between them. -/
abbrev listed (texts : List (List Char)) : List Char := [',', ' '].intercalate texts

theorem listed_cons_cons (text next : List Char) (texts : List (List Char)) :
    listed (text :: next :: texts) = text ++ ',' :: ' ' :: listed (next :: texts) := by
  simp [listed, List.intercalate_cons_cons]

/-- The text is read as the items of an array. -/
def PrintedItems (cs : List Char) (es : List Expr) : Prop :=
  ∃ ts, Spells cs ts ∧ Derives .items ts es

/-- The text is read as the entries of an object. -/
def PrintedEntries (cs : List Char) (es : List (String × Expr)) : Prop :=
  ∃ ts, Spells cs ts ∧ Derives .entries ts es

section

variable {cs ds : List Char} {e : Expr}

theorem PrintedItems.last (h : Printed 0 cs e) : PrintedItems cs [e] := by
  obtain ⟨ts, hSpells, hStands⟩ := h.read
  exact ⟨ts, hSpells, .lastItem hStands.expression⟩

theorem PrintedItems.cons {es : List Expr} (h : Printed 0 cs e) (hs : PrintedItems ds es) :
    PrintedItems (cs ++ ',' :: ' ' :: ds) (e :: es) := by
  obtain ⟨ts, hSpells, hStands⟩ := h.read
  obtain ⟨us, hMore, hItems⟩ := hs
  have hComma : Spells (',' :: ' ' :: ds) (.comma :: us) := .sign (by decide) (.blank hMore)
  exact ⟨ts ++ .comma :: us, hSpells.append_cons hComma (by decide) (by decide),
    .item hStands.expression hItems⟩

/-- An entry: its key as a string literal, and its value. -/
theorem spells_entry (key : String) {ts : List Token} (h : Spells cs ts) :
    Spells (Token.quotedText key ++ ':' :: ' ' :: cs) (.str key :: .colon :: ts) := by
  have hKey : Spells (Token.quotedText key) [.str key] := fun rest _ =>
    tokens?_quotedText key rest
  have hColon : Spells (':' :: ' ' :: cs) (.colon :: ts) := .sign (by decide) (.blank h)
  exact hKey.append_cons hColon (by decide) (by decide)

theorem PrintedEntries.last {key : String} (h : Printed 0 cs e) :
    PrintedEntries (Token.quotedText key ++ ':' :: ' ' :: cs) [(key, e)] := by
  obtain ⟨ts, hSpells, hStands⟩ := h.read
  exact ⟨_, spells_entry key hSpells, .lastEntry (.inl rfl) hStands.expression⟩

theorem PrintedEntries.cons {key : String} {es : List (String × Expr)} (h : Printed 0 cs e)
    (hs : PrintedEntries ds es) :
    PrintedEntries (Token.quotedText key ++ ':' :: ' ' :: cs ++ ',' :: ' ' :: ds)
      ((key, e) :: es) := by
  obtain ⟨ts, hSpells, hStands⟩ := h.read
  obtain ⟨us, hMore, hEntries⟩ := hs
  have hComma : Spells (',' :: ' ' :: ds) (.comma :: us) := .sign (by decide) (.blank hMore)
  exact ⟨_, (spells_entry key hSpells).append_cons hComma (by decide) (by decide),
    .entry (.inl rfl) hStands.expression hEntries⟩

theorem Printed.array {es : List Expr} (h : es = [] ∧ cs = [] ∨ PrintedItems cs es) :
    Printed 8 ('[' :: (cs ++ [']'])) (.array es) := by
  have hClose : Spells [']'] [.bracketClose] := .sign (by decide) .nil
  rcases h with ⟨rfl, rfl⟩ | ⟨ts, hSpells, hItems⟩
  · exact ⟨head_cons (by decide) _, _, .sign (by decide) hClose, .of_primary .emptyArray⟩
  · exact ⟨head_cons (by decide) _, .bracketOpen :: (ts ++ [.bracketClose]),
      .sign (by decide) (hSpells.append_cons hClose (by decide) (by decide)),
      .of_primary (.array hItems)⟩

theorem Printed.object {es : List (String × Expr)}
    (h : es = [] ∧ cs = [] ∨ PrintedEntries cs es) :
    Printed 8 ('\x7b' :: (cs ++ ['\x7d'])) (.object es) := by
  have hClose : Spells ['\x7d'] [.braceClose] := .sign (by decide) .nil
  rcases h with ⟨rfl, rfl⟩ | ⟨ts, hSpells, hEntries⟩
  · exact ⟨head_cons (by decide) _, _, .sign (by decide) hClose, .of_primary .emptyObject⟩
  · exact ⟨head_cons (by decide) _, .braceOpen :: (ts ++ [.braceClose]),
      .sign (by decide) (hSpells.append_cons hClose (by decide) (by decide)),
      .of_primary (.object hEntries)⟩

end

/-! ## All trees -/

mutual

/-- Every printable tree is printed for its level. -/
theorem printed_bareText : ∀ e : Expr, e.isPrintable = true → Printed e.level (bareText e) e
  | .literal _, h => .literal h
  | .ident _, h => .ident h
  | .member target _, h => by
    simp only [isPrintable, Bool.and_eq_true] at h
    exact .member ((printed_bareText target h.1).enclosed (by decide)) h.2
  | .index target key, h => by
    simp only [isPrintable, Bool.and_eq_true] at h
    exact .index ((printed_bareText target h.1).enclosed (by decide))
      ((printed_bareText key h.2).mono (Nat.zero_le _))
  | .array items, h => .array (printed_itemTexts items h)
  | .object entries, h => .object (printed_entryTexts entries h)
  | .unary op operand, h =>
    .unary op ((printed_bareText operand h).enclosed (by decide))
  | .binary op lhs rhs, h => by
    simp only [isPrintable, Bool.and_eq_true] at h
    -- an operand in parentheses is printed at every level, one without them at its own
    have hTop := (precedence_le op).2
    exact .binary op ((printed_bareText lhs h.1).enclosed (by omega))
      ((printed_bareText rhs h.2).enclosed (by omega))
  | .conditional condition onTrue onFalse, h => by
    simp only [isPrintable, Bool.and_eq_true] at h
    exact .conditional ((printed_bareText condition h.1.1).enclosed (by decide))
      ((printed_bareText onTrue h.1.2).mono (Nat.zero_le _))
      ((printed_bareText onFalse h.2).mono (Nat.zero_le _))

theorem printed_itemTexts : ∀ es : List Expr, areItemsPrintable es = true →
    es = [] ∧ listed (itemTexts es) = [] ∨ PrintedItems (listed (itemTexts es)) es
  | [], _ => .inl ⟨rfl, rfl⟩
  | [item], h => by
    simp only [areItemsPrintable, Bool.and_true] at h
    have hItem := (printed_bareText item h).mono (Nat.zero_le _)
    simp only [itemTexts, listed, List.intercalate_singleton]
    exact .inr (.last hItem)
  | item :: next :: rest, h => by
    rw [areItemsPrintable, Bool.and_eq_true] at h
    have hItem := (printed_bareText item h.1).mono (Nat.zero_le _)
    have hMore := (printed_itemTexts (next :: rest) h.2).resolve_left (by simp)
    rw [itemTexts, itemTexts, listed_cons_cons]
    exact .inr (.cons hItem hMore)

theorem printed_entryTexts : ∀ es : List (String × Expr), areEntriesPrintable es = true →
    es = [] ∧ listed (entryTexts es) = [] ∨ PrintedEntries (listed (entryTexts es)) es
  | [], _ => .inl ⟨rfl, rfl⟩
  | [(key, value)], h => by
    simp only [areEntriesPrintable, Bool.and_true] at h
    have hValue := (printed_bareText value h).mono (Nat.zero_le _)
    simp only [entryTexts, listed, List.intercalate_singleton]
    exact .inr (.last hValue)
  | (key, value) :: next :: rest, h => by
    rw [areEntriesPrintable, Bool.and_eq_true] at h
    have hValue := (printed_bareText value h.1).mono (Nat.zero_le _)
    have hMore := (printed_entryTexts (next :: rest) h.2).resolve_left (by simp)
    obtain ⟨nextKey, nextValue⟩ := next
    rw [entryTexts, entryTexts, listed_cons_cons]
    exact .inr (.cons hValue hMore)

end

/-- Tokens that stand for a tree are parsed to it. -/
theorem parse_of_tokens? {source : String} {ts : List Token} {e : Expr}
    (h : tokens? source.toList = some ts) (hDerives : Derives .expression ts e) :
    Expr.parse source = .ok e := by
  unfold tokens? at h
  obtain ⟨lexemes, hScan, rfl⟩ := Option.map_eq_some_iff.1 h
  have hText : Lexeme.ofText source = .ok lexemes := by
    unfold Lexeme.ofText
    cases hResult : scan 0 source.toList with
    | error bad => rw [hResult] at hScan; cases hScan
    | ok found => rw [hResult] at hScan; exact congrArg _ (Option.some.inj hScan)
  have hTokens : ofTokens source.utf8ByteSize lexemes = .ok e :=
    (Parser.ofTokens_eq_ok _).2 ((Parser.outcome_expression_eq_some_iff _).2 hDerives)
  simp only [Expr.parse, hText, hTokens]

/-- Parsing undoes printing: the text of a tree is read as exactly that tree. -/
theorem parse_print (e : Expr) (h : e.isPrintable = true) :
    Expression.parse e.print = .ok ⟨e.print, e⟩ := by
  obtain ⟨ts, hSpells, hStands⟩ := (printed_bareText e h).read
  have hTokens : tokens? e.print.toList = some ts := by
    have hAll := hSpells [] separates_nil
    simpa [print, String.toList_ofList] using hAll
  rw [Expression.parse, parse_of_tokens? hTokens hStands.expression]

/-- Two minus signs, a conditional as a condition and as an operand, a keyword as an object key, and
a text with a quote, a backslash and a line break. -/
theorem parse_print_nested :
    let e : Expr := .conditional
      (.conditional (.ident "ready") (.unary .negate (.unary .negate (.literal (.num (.int 1)))))
        (.binary .sub (.ident "a") (.binary .sub (.ident "b") (.unary .negate (.ident "c")))))
      (.member (.literal (.num (.int 9007199254740991))) "index")
      (.object [("in", .array [.literal (.str "\"\\\n"), .literal .null])])
    e.isPrintable = true ∧ Expression.parse e.print = .ok ⟨e.print, e⟩ :=
  ⟨by decide, parse_print _ (by decide)⟩

end ItemComposition.Expr
