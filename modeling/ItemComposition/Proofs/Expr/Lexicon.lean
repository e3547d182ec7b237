import Mathlib
import ItemComposition.Expr.Printer

/-!
# The lexicon

Which texts are tokens, each class of tokens by itself and without regard to what follows. Several
texts that begin at one place may be tokens, such as the digits before a point and the whole number;
the reader takes the longest of them.

## Key results

- `reads_of_next`, `covers_of_reads`: what the reader takes is a token, and it takes no less than
  any other token that stands there
- `longest_of_next`, `not_reads_of_next`: so it takes the longest token, and fails only if there is
  none
- `next_eq_of_reads`: a token by itself is read as such
-/

namespace ItemComposition.Token

variable {c quote : Char} {cs rest more body text w : List Char} {t t' : Token} {n seen : Nat}

/-! ## Characters -/

theorem isWordPart_of_isDigit (h : c.isDigit = true) : isWordPart c = true := by
  simp [isWordPart, Char.isAlphanum, h]

theorem isWordPart_of_isWordStart (h : isWordStart c = true) : isWordPart c = true := by
  simp only [isWordStart, Bool.or_eq_true] at h
  rcases h with h | h <;> simp [isWordPart, Char.isAlphanum, h]

theorem isDigit_of_isWordStart (h : isWordStart c = true) : c.isDigit = false := by
  simp only [isWordStart, Char.isAlpha, Char.isUpper, Char.isLower, Bool.or_eq_true,
    Bool.and_eq_true, decide_eq_true_eq] at h
  simp only [Char.isDigit, Bool.and_eq_false_iff, decide_eq_false_iff_not]
  rcases h with (h | h) | rfl
  · right
    intro h'
    exact absurd (UInt32.le_trans h.1 h') (by decide)
  · right
    intro h'
    exact absurd (UInt32.le_trans h.1 h') (by decide)
  · decide

theorem isSpace_of_isWordPart (h : isWordPart c = true) : isSpace c = false := by
  simp only [isSpace, Bool.or_eq_false_iff, decide_eq_false_iff_not]
  refine ⟨⟨⟨?_, ?_⟩, ?_⟩, ?_⟩ <;> rintro rfl <;> exact absurd h (by decide)

theorem takeWhile_append_of_all {p : Char → Bool} (hAll : w.all p = true)
    (hStop : ∀ c ∈ rest.head?, p c = false) : (w ++ rest).takeWhile p = w := by
  rw [List.takeWhile_append_of_pos (List.all_eq_true.1 hAll)]
  cases rest with
  | nil => simp
  | cons c rest => simp [hStop c rfl]

/-! ## The texts of tokens -/

/-- The keywords. -/
def words : List (List Char × Token) :=
  [("true".toList, .trueWord), ("false".toList, .falseWord), ("null".toList, .nullWord),
    ("nil".toList, .nullWord), ("in".toList, .inWord)]

/-- The signs that no other sign begins with. -/
def signs : List (List Char × Token) :=
  [(['&', '&'], .and), (['|', '|'], .or), (['=', '='], .eq), (['!', '='], .notEq),
    (['<', '='], .lessEq), (['>', '='], .greaterEq), (['+'], .plus), (['-'], .minus),
    (['*'], .star), (['/'], .slash), (['%'], .percent), (['('], .parenOpen), ([')'], .parenClose),
    (['['], .bracketOpen), ([']'], .bracketClose), (['\x7b'], .braceOpen), (['\x7d'], .braceClose),
    ([','], .comma), ([':'], .colon), (['?'], .question), (['.'], .dot)]

/-- The signs that an equals sign makes longer. -/
def shortSigns : List (List Char × Token) := [(['!'], .not), (['<'], .less), (['>'], .greater)]

/-- What stands between the quotes of a literal, and the text that it stands for. A backslash goes
with the character after it, which is no line break. -/
inductive Body (quote : Char) : List Char → List Char → Prop
  | nil : Body quote [] []
  | plain {c : Char} {body text : List Char} :
      c ≠ quote → c ≠ '\\' → Body quote body text → Body quote (c :: body) (c :: text)
  | escaped {c : Char} {body text : List Char} :
      c ≠ '\n' → Body quote body text → Body quote ('\\' :: c :: body) (unescape c :: text)

/-- The text is the token. -/
inductive Reads : List Char → Token → Prop
  | keyword {w : List Char} {t : Token} : (w, t) ∈ words → Reads w t
  | sign {w : List Char} {t : Token} : (w, t) ∈ signs ++ shortSigns → Reads w t
  | ident {c : Char} {w : List Char} :
      isWordStart c = true → w.all isWordPart = true → String.ofList (c :: w) ∉ keywords →
      Reads (c :: w) (.ident (String.ofList (c :: w)))
  | whole {digits : List Char} :
      digits ≠ [] → digits.all Char.isDigit = true → Reads digits (.number (numberValue digits []))
  | decimal {digits places : List Char} :
      digits ≠ [] → digits.all Char.isDigit = true → places ≠ [] →
      places.all Char.isDigit = true →
      Reads (digits ++ '.' :: places) (.number (numberValue digits places))
  | text {quote : Char} {body text : List Char} :
      quote = '"' ∨ quote = '\'' → Body quote body text →
      Reads (quote :: (body ++ [quote])) (.str (String.ofList text))

/-! ## String literals -/

theorem quotedBody_of_body (hQuote : quote ≠ '\\') (h : Body quote body text) (seen : Nat)
    (before more : List Char) :
    quotedBody quote seen before (body ++ quote :: more) =
      .ok (before.reverse ++ text, seen + body.length + 1) := by
  induction h generalizing seen before with
  | nil =>
    rw [List.nil_append, quotedBody, if_pos rfl, List.append_nil]
    · rfl
    · exact hQuote
  | plain hNe hPlain _ ih =>
    rw [List.cons_append, quotedBody, if_neg hNe, ih]
    · simp
      omega
    · exact hPlain
  -- a backslash takes the next character with it, whatever it is
  | escaped hLine _ ih =>
    rw [List.cons_append, List.cons_append, quotedBody, if_neg hLine, ih]
    simp
    omega

theorem body_of_quotedBody {before out : List Char}
    (h : quotedBody quote seen before cs = .ok (out, n)) :
    ∃ body text more, cs = body ++ quote :: more ∧ n = seen + body.length + 1 ∧
      out = before.reverse ++ text ∧ Body quote body text := by
  fun_induction quotedBody quote seen before cs with
  | case1 => cases h
  | case2 => cases h
  | case3 => cases h
  -- the three cases before end the text too early
  | case4 seen before c rest hLine ih =>
    obtain ⟨body, text, more, rfl, rfl, rfl, hBody⟩ := ih h
    exact ⟨_, _, more, rfl, by simp; omega, by simp, .escaped hLine hBody⟩
  | case5 seen before rest hPlain =>
    cases h
    exact ⟨[], [], rest, rfl, rfl, by simp, .nil⟩
  | case6 seen before c rest hPlain hNe ih =>
    obtain ⟨body, text, more, rfl, rfl, rfl, hBody⟩ := ih h
    exact ⟨_, _, more, rfl, by simp; omega, by simp, .plain hNe hPlain hBody⟩

/-- Any text stands between quotes if a backslash is put before each backslash and each quote of
that kind. -/
theorem body_escaped (hQuote : quote = '"' ∨ quote = '\'') (text : List Char) :
    Body quote (text.flatMap fun c => if c = quote ∨ c = '\\' then ['\\', c] else [c]) text := by
  induction text with
  | nil => exact .nil
  | cons c text ih =>
    rw [List.flatMap_cons]
    split
    · next hEscaped =>
      -- neither a quote nor a backslash stands for anything else, and none is a line break
      have hSelf : unescape c = c ∧ c ≠ '\n' := by
        rcases hEscaped with rfl | rfl
        · rcases hQuote with rfl | rfl <;> decide
        · decide
      have hOne := Body.escaped hSelf.2 ih
      rwa [hSelf.1] at hOne
    · next hPlain =>
      obtain ⟨hNe, hBackslash⟩ := not_or.1 hPlain
      exact .plain hNe hBackslash ih

/-! ## One step of the reader -/

/-- A word goes on through all letters and digits. -/
theorem next_word (hStart : isWordStart c = true) (hWord : w.all isWordPart = true)
    (more : List Char) :
    next c (w ++ more) = .ok (ofWord (String.ofList (c :: (w ++ more.takeWhile isWordPart))),
      (w ++ more.takeWhile isWordPart).length) := by
  simp only [next, hStart, if_true, List.takeWhile_append_of_pos (List.all_eq_true.1 hWord)]

/-- The digits after a point. -/
def places : List Char → List Char
  | '.' :: after => after.takeWhile Char.isDigit
  | _ => []

/-- A number goes on through all digits, and through a point if there are digits after it. -/
theorem next_number (hDigit : c.isDigit = true) (hDigits : w.all Char.isDigit = true)
    (hStop : ∀ d ∈ more.head?, d.isDigit = false) :
    next c (w ++ more) = .ok (.number (numberValue (c :: w) (places more)),
      if (places more).isEmpty then w.length else w.length + 1 + (places more).length) := by
  have hNoWord : isWordStart c = false := by
    rw [← Bool.not_eq_true]
    intro hStart
    rw [isDigit_of_isWordStart hStart] at hDigit
    cases hDigit
  simp only [next, hNoWord, hDigit, Bool.false_eq_true, if_false, if_true,
    takeWhile_append_of_all hDigits hStop, List.drop_left]
  rfl

theorem next_text (hQuote : quote = '"' ∨ quote = '\'') (h : Body quote body text)
    (more : List Char) :
    next quote (body ++ quote :: more) = .ok (.str (String.ofList text), body.length + 1) := by
  have hNe : quote ≠ '\\' := by rcases hQuote with rfl | rfl <;> decide
  have hStart : isWordStart quote = false := by rcases hQuote with rfl | rfl <;> decide
  have hDigit : quote.isDigit = false := by rcases hQuote with rfl | rfl <;> decide
  simp [next, hStart, hDigit, hQuote, quotedBody_of_body hNe h 0 [] more]

/-- A sign of the first table is read in one step, whatever follows. -/
theorem next_sign (h : (c :: w, t) ∈ signs) (more : List Char) :
    next c (w ++ more) = .ok (t, w.length) := by
  simp only [signs, List.mem_cons, List.not_mem_nil, or_false, Prod.mk.injEq, List.cons.injEq] at h
  rcases h with ⟨⟨rfl, rfl⟩, rfl⟩ | ⟨⟨rfl, rfl⟩, rfl⟩ | ⟨⟨rfl, rfl⟩, rfl⟩ | ⟨⟨rfl, rfl⟩, rfl⟩ |
    ⟨⟨rfl, rfl⟩, rfl⟩ | ⟨⟨rfl, rfl⟩, rfl⟩ | ⟨⟨rfl, rfl⟩, rfl⟩ | ⟨⟨rfl, rfl⟩, rfl⟩ |
    ⟨⟨rfl, rfl⟩, rfl⟩ | ⟨⟨rfl, rfl⟩, rfl⟩ | ⟨⟨rfl, rfl⟩, rfl⟩ | ⟨⟨rfl, rfl⟩, rfl⟩ |
    ⟨⟨rfl, rfl⟩, rfl⟩ | ⟨⟨rfl, rfl⟩, rfl⟩ | ⟨⟨rfl, rfl⟩, rfl⟩ | ⟨⟨rfl, rfl⟩, rfl⟩ |
    ⟨⟨rfl, rfl⟩, rfl⟩ | ⟨⟨rfl, rfl⟩, rfl⟩ | ⟨⟨rfl, rfl⟩, rfl⟩ | ⟨⟨rfl, rfl⟩, rfl⟩ |
    ⟨⟨rfl, rfl⟩, rfl⟩ <;> rfl

/-! ## No token is longer -/

/-- The reader takes at least the given characters, and if it takes no more, then as that token. -/
def Covers (c : Char) (rest : List Char) (least : Nat) (t : Token) : Prop :=
  ∃ t' n, next c rest = .ok (t', n) ∧ least ≤ n ∧ (n = least → t' = t)

theorem covers_word (hStart : isWordStart c = true) (hWord : w.all isWordPart = true)
    (more : List Char) : Covers c (w ++ more) w.length (ofWord (String.ofList (c :: w))) := by
  refine ⟨_, _, next_word hStart hWord more, by simp, fun hLength => ?_⟩
  have hNone : more.takeWhile isWordPart = [] := by simpa using hLength
  rw [hNone, List.append_nil]

theorem not_isDigit_of_dropWhile (cs : List Char) :
    ∀ d ∈ (cs.dropWhile Char.isDigit).head?, d.isDigit = false := by
  intro d hd
  have hNot := List.head?_dropWhile_not Char.isDigit cs
  rw [Option.mem_def] at hd
  simpa [hd] using hNot

theorem covers_whole (hDigit : c.isDigit = true) (hDigits : w.all Char.isDigit = true)
    (more : List Char) :
    Covers c (w ++ more) w.length (.number (numberValue (c :: w) [])) := by
  -- the digits go on through those that begin what follows
  have hAll : (w ++ more.takeWhile Char.isDigit).all Char.isDigit = true := by
    rw [List.all_append, hDigits, List.all_takeWhile]
    rfl
  have hNext := next_number hDigit hAll (not_isDigit_of_dropWhile more)
  rw [List.append_assoc, List.takeWhile_append_dropWhile] at hNext
  refine ⟨_, _, hNext, ?_, fun hLength => ?_⟩
  · split
    · simp
    · simp
      omega
  split at hLength
  · next hEmpty =>
    have hNone : more.takeWhile Char.isDigit = [] := by simpa using hLength
    rw [hNone, List.append_nil, List.isEmpty_iff.1 hEmpty]
  · simp at hLength
    omega

theorem covers_decimal {digits : List Char} (hDigit : c.isDigit = true)
    (hDigits : w.all Char.isDigit = true) (hSome : digits ≠ [])
    (hPlaces : digits.all Char.isDigit = true) (more : List Char) :
    Covers c ((w ++ '.' :: digits) ++ more) (w ++ '.' :: digits).length
      (.number (numberValue (c :: w) digits)) := by
  have hPoint : ∀ d ∈ ('.' :: (digits ++ more)).head?, d.isDigit = false := by simp
  have hNext := next_number hDigit hDigits hPoint
  have hTaken : places ('.' :: (digits ++ more)) = digits ++ more.takeWhile Char.isDigit := by
    rw [places, List.takeWhile_append_of_pos (List.all_eq_true.1 hPlaces)]
  rw [hTaken, if_neg (by simp [hSome])] at hNext
  rw [List.append_assoc, List.cons_append]
  -- the digits behind the point go on into what follows, unless the lexeme ends where the word does
  refine ⟨_, _, hNext, by simp; omega, fun hLength => ?_⟩
  have hNone : more.takeWhile Char.isDigit = [] := by
    rw [← List.length_eq_zero_iff]
    simp at hLength
    omega
  rw [hNone, List.append_nil]

theorem covers_keyword (h : (c :: w, t) ∈ words) (more : List Char) :
    Covers c (w ++ more) w.length t := by
  have hTable : ∀ x ∈ words, (x.1.head?.all isWordStart && x.1.tail.all isWordPart) = true ∧
      ofWord (String.ofList x.1) = x.2 := by decide
  obtain ⟨hChars, hToken⟩ := hTable _ h
  obtain ⟨hStart, hWord⟩ := Bool.and_eq_true_iff.1 hChars
  rw [← show ofWord (String.ofList (c :: w)) = t from hToken]
  exact covers_word hStart hWord more

theorem covers_sign (h : (c :: w, t) ∈ signs) (more : List Char) :
    Covers c (w ++ more) w.length t :=
  ⟨t, w.length, next_sign h more, Nat.le_refl _, fun _ => rfl⟩

theorem covers_shortSign (h : (c :: w, t) ∈ shortSigns) (more : List Char) :
    Covers c (w ++ more) w.length t := by
  simp only [shortSigns, List.mem_cons, List.not_mem_nil, or_false, Prod.mk.injEq,
    List.cons.injEq] at h
  -- with an equals sign the reader takes one character more
  have hLonger : ∀ {long rest}, next c ('=' :: rest) = .ok (long, 1) →
      Covers c ('=' :: rest) 0 t :=
    fun hNext => ⟨_, 1, hNext, Nat.zero_le 1, nofun⟩
  have hAlone : ∀ {rest}, next c rest = .ok (t, 0) → Covers c rest 0 t :=
    fun hNext => ⟨t, 0, hNext, Nat.le_refl 0, fun _ => rfl⟩
  obtain rfl : w = [] := by rcases h with h | h | h <;> exact h.1.2
  rw [List.nil_append]
  by_cases hEquals : ∃ rest, more = '=' :: rest
  · obtain ⟨rest, rfl⟩ := hEquals
    rcases h with ⟨⟨rfl, -⟩, rfl⟩ | ⟨⟨rfl, -⟩, rfl⟩ | ⟨⟨rfl, -⟩, rfl⟩ <;> exact hLonger rfl
  · have hNot : ∀ rest, more ≠ '=' :: rest := not_exists.1 hEquals
    rcases h with ⟨⟨rfl, -⟩, rfl⟩ | ⟨⟨rfl, -⟩, rfl⟩ | ⟨⟨rfl, -⟩, rfl⟩ <;>
      exact hAlone (by simp [next, isWordStart])

theorem ofWord_of_not_mem {word : String} (h : word ∉ keywords) : ofWord word = .ident word := by
  simp only [keywords, List.mem_cons, List.not_mem_nil, or_false, not_or] at h
  simp [ofWord, h]

/-- The reader takes no less than any token that stands where it begins. -/
theorem covers_of_reads (h : Reads (c :: w) t) (more : List Char) :
    Covers c (w ++ more) w.length t := by
  -- the word is taken apart only where the form of the token says how it begins
  generalize hWhole : c :: w = whole at h
  cases h with
  | keyword h => exact covers_keyword (hWhole ▸ h) more
  | sign h =>
    rw [← hWhole, List.mem_append] at h
    rcases h with h | h
    · exact covers_sign h more
    · exact covers_shortSign h more
  | ident hStart hWord hKeyword =>
    obtain ⟨rfl, rfl⟩ := List.cons.inj hWhole
    rw [← ofWord_of_not_mem hKeyword]
    exact covers_word hStart hWord more
  | whole _ hDigits =>
    rw [← hWhole] at hDigits ⊢
    obtain ⟨hDigit, hRest⟩ := Bool.and_eq_true_iff.1 hDigits
    exact covers_whole hDigit hRest more
  | @decimal digits fraction hSome hDigits hPlaces hAll =>
    cases digits with
    | nil => exact absurd rfl hSome
    | cons d digits =>
      obtain ⟨rfl, rfl⟩ := List.cons.inj hWhole
      obtain ⟨hDigit, hRest⟩ := Bool.and_eq_true_iff.1 hDigits
      exact covers_decimal hDigit hRest hPlaces hAll more
  | text hQuote hBody =>
    obtain ⟨rfl, rfl⟩ := List.cons.inj hWhole
    rw [List.append_assoc, List.singleton_append, List.length_append, List.length_singleton]
    exact ⟨_, _, next_text hQuote hBody more, Nat.le_refl _, fun _ => rfl⟩

/-! ## What the reader takes is a token -/

theorem reads_of_word (hStart : isWordStart c = true) (hWord : w.all isWordPart = true) :
    Reads (c :: w) (ofWord (String.ofList (c :: w))) := by
  by_cases hKeyword : String.ofList (c :: w) ∈ keywords
  · have hTable : ∀ word ∈ keywords, (word.toList, ofWord word) ∈ words := by decide
    have hMem := hTable _ hKeyword
    rw [String.toList_ofList] at hMem
    exact .keyword hMem
  · rw [ofWord_of_not_mem hKeyword]
    exact .ident hStart hWord hKeyword

theorem take_length_takeWhile (p : Char → Bool) (cs : List Char) :
    cs.take (cs.takeWhile p).length = cs.takeWhile p :=
  (List.prefix_iff_eq_take.1 (List.takeWhile_prefix p)).symm

theorem reads_of_digits (hDigit : c.isDigit = true) (hDigits : w.all Char.isDigit = true)
    (more : List Char) :
    Reads (c :: (w ++ more).take
        (if (places more).isEmpty then w.length else w.length + 1 + (places more).length))
      (.number (numberValue (c :: w) (places more))) := by
  have hAll : (c :: w).all Char.isDigit = true := by
    rw [List.all_cons, hDigit, hDigits]
    rfl
  unfold places
  split
  · -- a point with digits behind it makes a decimal, and without them it is not taken
    next after =>
    cases hPlaces : after.takeWhile Char.isDigit with
    | nil =>
      rw [List.isEmpty_nil, if_pos rfl, List.take_left]
      exact .whole (List.cons_ne_nil c w) hAll
    | cons d digits =>
      have hTaken : after.take (d :: digits).length = d :: digits := by
        rw [← hPlaces]
        exact take_length_takeWhile _ _
      have hSome : (d :: digits).all Char.isDigit = true := by
        rw [← hPlaces]
        exact List.all_takeWhile
      rw [List.isEmpty_cons, if_neg Bool.false_ne_true, Nat.add_assoc, List.take_length_add_append,
        Nat.add_comm 1, List.take_succ_cons, hTaken]
      exact .decimal (List.cons_ne_nil c w) hAll (List.cons_ne_nil d digits) hSome
  · rw [List.isEmpty_nil, if_pos rfl, List.take_left]
    exact .whole (List.cons_ne_nil c w) hAll

/-- A sign that the reader takes is in the table. -/
theorem reads_of_sign (h : (c :: rest.take n, t) ∈ signs ++ shortSigns)
    (hLength : n ≤ rest.length) : Reads (c :: rest.take n) t ∧ n ≤ rest.length := ⟨.sign h, hLength⟩

theorem length_places_lt (h : (places more).isEmpty = false) :
    (places more).length < more.length := by
  revert h
  unfold places
  split
  · exact fun _ => Nat.lt_succ_of_le (List.takeWhile_prefix _).length_le
  · exact fun h => absurd h (by decide)

/-- What the reader takes is a token. -/
theorem reads_of_next (h : next c rest = .ok (t, n)) :
    Reads (c :: rest.take n) t ∧ n ≤ rest.length := by
  by_cases hDigit : c.isDigit = true
  · have hDigits : (rest.takeWhile Char.isDigit).all Char.isDigit = true := List.all_takeWhile
    have hNext := next_number hDigit hDigits (not_isDigit_of_dropWhile rest)
    have hReads := reads_of_digits hDigit hDigits (rest.dropWhile Char.isDigit)
    rw [List.takeWhile_append_dropWhile] at hNext hReads
    rw [h] at hNext
    cases hNext
    refine ⟨hReads, ?_⟩
    have hLength := congrArg List.length
      (List.takeWhile_append_dropWhile (p := Char.isDigit) (l := rest))
    rw [List.length_append] at hLength
    split
    · omega
    · next hSome =>
      have hShorter := length_places_lt (Bool.eq_false_iff.2 hSome)
      omega
  unfold next at h
  split at h
  · next hStart =>
    cases h
    rw [take_length_takeWhile]
    exact ⟨reads_of_word hStart List.all_takeWhile, (List.takeWhile_prefix _).length_le⟩
  split at h
  · next hQuote =>
    split at h
    · next text size hBody =>
      cases h
      obtain ⟨body, inner, more, rfl, rfl, rfl, hBody⟩ := body_of_quotedBody hBody
      rw [Nat.zero_add, List.take_length_add_append]
      exact ⟨.text (by simpa using hQuote) hBody, by simp⟩
    · cases h
  -- the remaining tokens are signs, one a line of the reader
  split at h <;> cases h <;> exact reads_of_sign (by simp [signs, shortSigns]) (by simp)

/-! ## The longest token -/

/-- A text begins with a token, and no token that it begins with is longer. -/
structure Longest (w text : List Char) (t : Token) : Prop where
  begins : w <+: text
  reads : Reads w t
  least : ∀ w' t', w' <+: text → Reads w' t' → w'.length ≤ w.length

theorem Reads.ne_nil (h : Reads w t) : w ≠ [] := by
  cases h with
  | keyword h =>
    have hTable : ∀ x ∈ words, x.1 ≠ [] := by decide
    exact hTable _ h
  | sign h =>
    have hTable : ∀ x ∈ signs ++ shortSigns, x.1 ≠ [] := by decide
    exact hTable _ h
  | ident | text => exact List.cons_ne_nil _ _
  | whole hSome => exact hSome
  | decimal => simp

/-- Any token at the beginning of a text is covered. -/
theorem Reads.covers (h : Reads w t) (hBegins : w <+: c :: rest) :
    ∃ more, w.length = more + 1 ∧ Covers c rest more t := by
  cases w with
  | nil => exact absurd rfl h.ne_nil
  | cons d w =>
    obtain ⟨rfl, after, rfl⟩ := List.cons_prefix_cons.1 hBegins
    exact ⟨w.length, rfl, covers_of_reads h after⟩

/-- The reader takes the longest token. -/
theorem longest_of_next (h : next c rest = .ok (t, n)) :
    Longest (c :: rest.take n) (c :: rest) t := by
  obtain ⟨hReads, hLength⟩ := reads_of_next h
  refine ⟨List.cons_prefix_cons.2 ⟨rfl, List.take_prefix n rest⟩, hReads,
    fun w' t' hBegins hOther => ?_⟩
  obtain ⟨more, hMore, t'', n', hNext, hLeast, -⟩ := hOther.covers hBegins
  rw [h] at hNext
  cases hNext
  rw [hMore, List.length_cons, List.length_take_of_le hLength]
  exact Nat.succ_le_succ hLeast

/-- The reader fails only where no token begins. -/
theorem not_reads_of_next (h : next c rest = .error n) (hBegins : w <+: c :: rest) (t : Token) :
    ¬Reads w t := by
  intro hReads
  obtain ⟨more, -, t', n', hNext, -⟩ := hReads.covers hBegins
  rw [h] at hNext
  cases hNext

/-- A token by itself is read as such. -/
theorem next_eq_of_reads (h : Reads (c :: w) t) : next c w = .ok (t, w.length) := by
  obtain ⟨t', n, hNext, hLeast, hToken⟩ := covers_of_reads h []
  rw [List.append_nil] at hNext
  have hEq : n = w.length := Nat.le_antisymm (reads_of_next hNext).2 hLeast
  rw [hNext, hToken hEq, hEq]

end ItemComposition.Token
