import ItemComposition.Proofs.Expr.Lexicon
import ItemComposition.Proofs.Expr.Numerals

/-!
# Reading the tokens of a text that was put together

A text is read token by token, and the longest token wins. So what a piece of text is read as
depends on what follows: a word goes on through letters and digits, a number through digits and
through a point before a digit. `Separates` says of what follows that neither happens, and
`Spells` that a piece is read as given tokens in front of anything of that kind. The tokens are
taken without their places.

## Key results

- `tokens?_of_scan`: where a text stands does not matter
- `tokens?_word`, `tokens?_numeral`, `tokens?_quotedText`, `tokens?_sign`, `tokens?_operator`: the
  single tokens
- `Spells.append`: pieces that separate are read one after the other
-/

namespace ItemComposition.Lexeme

/-- The tokens of a text without their places; none if some position starts no token. -/
def tokens? (cs : List Char) : Option (List Token) :=
  (scan 0 cs).toOption.map (List.map Lexeme.token)

/-- Where a text stands does not matter. -/
theorem tokens?_of_scan (pos : Nat) (cs : List Char) :
    (scan pos cs).toOption.map (List.map Lexeme.token) = tokens? cs := by
  unfold tokens?
  -- both readings go on with the same characters after each blank and each token
  generalize 0 = start
  induction h : cs.length using Nat.strongRecOn generalizing pos start cs with
  | _ n ih =>
    subst h
    cases cs with
    | nil => rw [scan, scan]
    | cons c rest =>
      rw [scan, scan]
      split
      · exact ih rest.length (Nat.lt_succ_self _) _ rest _ rfl
      · split
        · rfl
        · next token more hNext =>
          have hShorter : (rest.drop more).length < (c :: rest).length := by
            simp only [List.length_drop, List.length_cons]
            omega
          have hRest := ih _ hShorter (pos + byteLength (c :: rest.take more)) (rest.drop more)
            (start + byteLength (c :: rest.take more)) rfl
          revert hRest
          cases scan (pos + byteLength (c :: rest.take more)) (rest.drop more) <;>
            cases scan (start + byteLength (c :: rest.take more)) (rest.drop more) <;>
            simp [Except.toOption]

/-! ## One step -/

@[simp] theorem tokens?_nil : tokens? [] = some [] := by
  rw [tokens?, scan]
  rfl

@[simp] theorem tokens?_blank (rest : List Char) : tokens? (' ' :: rest) = tokens? rest := by
  rw [tokens?, scan, if_pos (by decide), tokens?_of_scan]

theorem tokens?_of_next {c : Char} {rest : List Char} {t : Token} {more : Nat}
    (hSpace : Token.isSpace c = false) (h : Token.next c rest = .ok (t, more)) :
    tokens? (c :: rest) = (tokens? (rest.drop more)).map (t :: ·) := by
  rw [tokens?, scan, if_neg (by simp [hSpace]), h]
  simp only
  rw [← tokens?_of_scan (0 + byteLength (c :: rest.take more))]
  cases scan (0 + byteLength (c :: rest.take more)) (rest.drop more) <;> rfl

/-! ## Signs -/

/-- The signs that are tokens whatever follows them. -/
def signs : List (Char × Token) :=
  [('+', .plus), ('-', .minus), ('*', .star), ('/', .slash), ('%', .percent), ('(', .parenOpen),
    (')', .parenClose), ('[', .bracketOpen), (']', .bracketClose), ('\x7b', .braceOpen),
    ('\x7d', .braceClose), (',', .comma), (':', .colon), ('?', .question), ('.', .dot)]

theorem tokens?_sign {c : Char} {t : Token} (h : (c, t) ∈ signs) (rest : List Char) :
    tokens? (c :: rest) = (tokens? rest).map (t :: ·) := by
  have hTable : ∀ x ∈ signs, Token.isSpace x.1 = false ∧ ([x.1], x.2) ∈ Token.signs := by decide
  obtain ⟨hSpace, hSign⟩ := hTable _ h
  exact tokens?_of_next hSpace (Token.next_sign hSign rest)

/-- An exclamation mark negates unless an equals sign follows. -/
theorem tokens?_not {rest : List Char} (h : rest.head? ≠ some '=') :
    tokens? ('!' :: rest) = (tokens? rest).map (.not :: ·) := by
  have hStep : Token.next '!' rest = .ok (.not, 0) := by
    cases rest with
    | nil => rfl
    | cons d rest =>
      have hNe : d ≠ '=' := fun hEq => h (congrArg some hEq)
      simp [Token.next, Token.isWordStart, hNe]
  exact tokens?_of_next rfl hStep

/-- The tokens of the infix operators. -/
def operatorToken : BinaryOp → Token
  | .or => .or
  | .and => .and
  | .eq => .eq
  | .notEq => .notEq
  | .less => .less
  | .lessEq => .lessEq
  | .greater => .greater
  | .greaterEq => .greaterEq
  | .contains => .inWord
  | .add => .plus
  | .sub => .minus
  | .mul => .star
  | .div => .slash
  | .rem => .percent

theorem tokens?_operator (op : BinaryOp) (rest : List Char) :
    tokens? (op.symbol.toList ++ ' ' :: rest) = (tokens? rest).map (operatorToken op :: ·) := by
  have hStep : ∃ c more, op.symbol.toList = c :: more ∧ Token.isSpace c = false ∧
      Token.next c (more ++ ' ' :: rest) = .ok (operatorToken op, more.length) := by
    cases op <;> exact ⟨_, _, rfl, rfl, rfl⟩
  obtain ⟨c, more, hSymbol, hSpace, hNext⟩ := hStep
  rw [hSymbol, List.cons_append, tokens?_of_next hSpace hNext, List.drop_left, tokens?_blank]

/-! ## Words, numerals and string literals -/

/-- What neither a word nor a number goes on with. -/
structure Separates (rest : List Char) : Prop where
  word : ∀ c ∈ rest.head?, Token.isWordPart c = false
  fraction : ∀ after, rest = '.' :: after → ∀ c ∈ after.head?, c.isDigit = false

theorem separates_nil : Separates [] := ⟨by simp, by simp⟩

theorem separates_cons {c : Char} (hWord : Token.isWordPart c = false) (hDot : c ≠ '.')
    (rest : List Char) : Separates (c :: rest) := by
  refine ⟨by simp [hWord], fun after hEq => ?_⟩
  exact absurd (List.cons.inj hEq).1 hDot

/-- A point before a name ends a number. -/
theorem separates_dot {c : Char} (h : Token.isWordStart c = true) (rest : List Char) :
    Separates ('.' :: c :: rest) := by
  refine ⟨by simp [Token.isWordPart, Char.isAlphanum, Char.isAlpha], fun after hEq => ?_⟩
  obtain rfl := (List.cons.inj hEq).2
  simp [Token.isDigit_of_isWordStart h]

theorem tokens?_word {c : Char} {w : List Char} (hStart : Token.isWordStart c = true)
    (hPart : w.all Token.isWordPart = true) {rest : List Char} (hRest : Separates rest) :
    tokens? (c :: w ++ rest) =
      (tokens? rest).map (Token.ofWord (String.ofList (c :: w)) :: ·) := by
  have hSpace := Token.isSpace_of_isWordPart (Token.isWordPart_of_isWordStart hStart)
  have hNone : rest.takeWhile Token.isWordPart = [] :=
    Token.takeWhile_append_of_all (w := []) rfl hRest.word
  have hNext := Token.next_word hStart hPart rest
  rw [hNone, List.append_nil] at hNext
  rw [List.cons_append, tokens?_of_next hSpace hNext, List.drop_left]

theorem tokens?_digits {c : Char} {w : List Char} (hStart : c.isDigit = true)
    (hDigits : w.all Char.isDigit = true) {rest : List Char} (hRest : Separates rest) :
    tokens? (c :: w ++ rest) =
      (tokens? rest).map (.number (Token.numberValue (c :: w) []) :: ·) := by
  have hSpace := Token.isSpace_of_isWordPart (Token.isWordPart_of_isDigit hStart)
  have hStop : ∀ c ∈ rest.head?, c.isDigit = false := by
    intro c hc
    by_contra h
    rw [Bool.not_eq_false] at h
    exact absurd (hRest.word c hc) (by simp [Token.isWordPart_of_isDigit h])
  -- a point after the digits belongs to the number only before another digit
  have hPlaces : Token.places rest = [] := by
    unfold Token.places
    split
    · next after =>
      exact Token.takeWhile_append_of_all (w := []) rfl (hRest.fraction after rfl)
    · rfl
  have hNext := Token.next_number hStart hDigits hStop
  rw [hPlaces, List.isEmpty_nil, if_pos rfl] at hNext
  rw [List.cons_append, tokens?_of_next hSpace hNext, List.drop_left]

theorem tokens?_numeral (n : Nat) {rest : List Char} (hRest : Separates rest) :
    tokens? (Decimal.natDigits n ++ rest) =
      (tokens? rest).map (.number (Token.numberValue (Decimal.natDigits n) []) :: ·) := by
  have hDigits : ∀ c ∈ Decimal.natDigits n, c.isDigit = true := fun c hc =>
    Nat.isDigit_of_mem_toDigits (by decide) (by decide) hc
  have hNonempty : Decimal.natDigits n ≠ [] := Nat.toDigits_ne_nil
  revert hDigits hNonempty
  cases Decimal.natDigits n with
  | nil => exact fun _ h => absurd rfl h
  | cons c w =>
    intro hDigits _
    exact tokens?_digits (hDigits c List.mem_cons_self)
      (List.all_eq_true.2 fun d hd => hDigits d (List.mem_cons_of_mem c hd)) hRest

theorem tokens?_quotedText (text : String) (rest : List Char) :
    tokens? (Token.quotedText text ++ rest) = (tokens? rest).map (.str text :: ·) := by
  have hBody : Token.Body '"' (text.toList.flatMap Token.escapeChar) text.toList := by
    have hEscape : Token.escapeChar =
        fun c => if c = '"' ∨ c = '\\' then ['\\', c] else [c] := by
      funext c
      simp [Token.escapeChar]
    rw [hEscape]
    exact Token.body_escaped (.inl rfl) text.toList
  have hNext := Token.next_text (.inl rfl) hBody rest
  rw [String.ofList_toList] at hNext
  rw [Token.quotedText, List.cons_append, List.append_assoc, List.singleton_append,
    tokens?_of_next rfl hNext, List.drop_length_add_append]
  rfl

/-! ## Pieces of text -/

/-- A piece of text is read as the given tokens in front of anything that separates. -/
def Spells (cs : List Char) (ts : List Token) : Prop :=
  ∀ rest, Separates rest → tokens? (cs ++ rest) = (tokens? rest).map (ts ++ ·)

namespace Spells

variable {cs ds : List Char} {ts us : List Token}

theorem nil : Spells [] [] := by
  intro rest _
  simp

/-- A single token that needs what follows to separate. -/
theorem single {t : Token}
    (h : ∀ rest, Separates rest → tokens? (cs ++ rest) = (tokens? rest).map (t :: ·)) :
    Spells cs [t] := h

/-- Pieces are read one after the other if what begins the second separates. -/
theorem append (h : Spells cs ts) (h' : Spells ds us)
    (hSep : ∀ rest, Separates (ds ++ rest)) : Spells (cs ++ ds) (ts ++ us) := by
  intro rest hRest
  rw [List.append_assoc, h _ (hSep rest), h' rest hRest]
  cases tokens? rest <;> simp

/-- The second piece begins with a character that separates. -/
theorem append_cons {c : Char} (h : Spells cs ts) (h' : Spells (c :: ds) us)
    (hWord : Token.isWordPart c = false) (hDot : c ≠ '.') :
    Spells (cs ++ c :: ds) (ts ++ us) :=
  h.append h' fun rest => separates_cons hWord hDot (ds ++ rest)

theorem blank (h : Spells cs ts) : Spells (' ' :: cs) ts := by
  intro rest hRest
  rw [List.cons_append, tokens?_blank, h rest hRest]

theorem sign {c : Char} {t : Token} (hSign : (c, t) ∈ signs) (h : Spells cs ts) :
    Spells (c :: cs) (t :: ts) := by
  intro rest hRest
  rw [List.cons_append, tokens?_sign hSign, h rest hRest]
  cases tokens? rest <;> simp

theorem not (hHead : ∀ rest, (cs ++ rest).head? ≠ some '=') (h : Spells cs ts) :
    Spells ('!' :: cs) (.not :: ts) := by
  intro rest hRest
  rw [List.cons_append, tokens?_not (hHead rest), h rest hRest]
  cases tokens? rest <;> simp

theorem operator (op : BinaryOp) (h : Spells cs ts) :
    Spells (op.symbol.toList ++ ' ' :: cs) (operatorToken op :: ts) := by
  intro rest hRest
  rw [List.append_assoc, List.cons_append, tokens?_operator, h rest hRest]
  cases tokens? rest <;> simp

end Spells

end ItemComposition.Lexeme
