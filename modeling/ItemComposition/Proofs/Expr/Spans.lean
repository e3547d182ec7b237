import ItemComposition.Proofs.Expr.Lexicon

/-!
# The spans of the tokens of a text

The tokens of a text stand at places that do not overlap, with nothing but blanks around them, and
each is the longest token where it begins. Where the text has no such tokens, reading stops at the
first place where none begins. `Cut` says this of the stretch between two byte offsets. A place is
given by the characters before it, so every end of a token lies between two characters.

## Key results

- `Cut.blank`, `Cut.token`: what one step of the reader adds to a cut
- `Splits.blank`, `Splits.token`: the same for a reading that may stop early
- `splits_ofText`: whole texts, and the literals that texts are written as
-/

namespace ItemComposition

/-! ## Lengths in bytes -/

theorem byteLength_cons (c : Char) (cs : List Char) :
    byteLength (c :: cs) = c.utf8Size + byteLength cs := by
  have hFrom : ∀ (cs : List Char) (n : Nat),
      cs.foldl (fun n c => n + c.utf8Size) n = n + byteLength cs := by
    intro cs
    induction cs with
    | nil => exact fun n => rfl
    | cons c cs ih =>
      intro n
      rw [byteLength, List.foldl_cons, List.foldl_cons, ih, ih]
      omega
  rw [byteLength, List.foldl_cons, hFrom, Nat.zero_add]

@[simp] theorem byteLength_nil : byteLength [] = 0 := rfl

theorem byteLength_append (cs ds : List Char) :
    byteLength (cs ++ ds) = byteLength cs + byteLength ds := by
  induction cs with
  | nil => simp
  | cons c cs ih => rw [List.cons_append, byteLength_cons, byteLength_cons, ih, Nat.add_assoc]

theorem byteLength_pos {cs : List Char} (h : cs ≠ []) : 0 < byteLength cs := by
  cases cs with
  | nil => exact absurd rfl h
  | cons c cs =>
    rw [byteLength_cons]
    have hPos := c.utf8Size_pos
    omega

theorem byteLength_toList (text : String) : byteLength text.toList = text.utf8ByteSize := by
  obtain ⟨cs, rfl⟩ : ∃ cs, text = String.ofList cs := ⟨text.toList, String.ofList_toList.symm⟩
  rw [String.toList_ofList]
  induction cs with
  | nil => rfl
  | cons c cs ih =>
    rw [byteLength_cons, ih, String.ofList_cons, String.utf8ByteSize_append,
      String.utf8ByteSize_singleton]

/-- Of two beginnings of a text, the one with fewer bytes begins the other. -/
theorem prefix_of_byteLength_le {before done text : List Char} (hBefore : before <+: text)
    (hDone : done <+: text) (h : byteLength done ≤ byteLength before) : done <+: before := by
  rcases List.prefix_or_prefix_of_prefix hDone hBefore with hFirst | ⟨more, rfl⟩
  · exact hFirst
  · rw [byteLength_append] at h
    obtain rfl : more = [] := by
      by_contra hSome
      have hPos := byteLength_pos hSome
      omega
    rw [List.append_nil]

/-! ## Cuts -/

/-- A token with the byte offsets where it starts and where it ends. -/
structure Span where
  token : Token
  start : Nat
  stop : Nat

/-- The token with its place, without its end. -/
def Span.lexeme (s : Span) : Lexeme := ⟨s.token, s.start⟩

/-- The spans are the tokens of the text between two byte offsets. -/
structure Cut (text : List Char) (first last : Nat) (spans : List Span) : Prop where
  le : first ≤ last
  nonempty : ∀ s ∈ spans, s.start < s.stop
  ordered : spans.Pairwise fun s s' => s.stop ≤ s'.start
  within : ∀ s ∈ spans, first ≤ s.start ∧ s.stop ≤ last
  /-- Between characters, the longest token there, and the same token by itself. -/
  reads : ∀ s ∈ spans, ∃ before w after, text = before ++ (w ++ after) ∧
    byteLength before = s.start ∧ byteLength (before ++ w) = s.stop ∧
    Token.Longest w (w ++ after) s.token ∧ Lexeme.ofText (String.ofList w) = .ok [⟨s.token, 0⟩]
  /-- What is outside all tokens is blank. -/
  gaps : ∀ before c after, text = before ++ c :: after → first ≤ byteLength before →
    byteLength before < last →
    (∀ s ∈ spans, byteLength before < s.start ∨ s.stop ≤ byteLength before) →
    Token.isSpace c = true

namespace Cut

variable {text done w after : List Char} {c : Char} {t : Token} {last : Nat} {spans : List Span}

theorem nil (text : List Char) (place : Nat) : Cut text place place [] :=
  ⟨Nat.le_refl place, nofun, .nil, nofun, nofun, fun _ _ _ _ _ _ => by omega⟩

theorem blank (hText : text = done ++ c :: after) (hSpace : Token.isSpace c = true)
    (h : Cut text (byteLength (done ++ [c])) last spans) :
    Cut text (byteLength done) last spans := by
  have hMore : byteLength done ≤ byteLength (done ++ [c]) := by
    rw [byteLength_append]
    omega
  refine ⟨Nat.le_trans hMore h.le, h.nonempty, h.ordered,
    fun s hs => ⟨Nat.le_trans hMore (h.within s hs).1, (h.within s hs).2⟩, h.reads, ?_⟩
  intro before d rest hEq hFirst hLast hOutside
  -- a place that is not past the blank is the place of the blank
  obtain ⟨more, rfl⟩ := prefix_of_byteLength_le ⟨_, hEq.symm⟩ ⟨_, hText.symm⟩ hFirst
  cases more with
  | nil =>
    rw [List.append_nil, hText] at hEq
    obtain rfl := (List.cons.inj (List.append_cancel_left hEq)).1
    exact hSpace
  | cons e more =>
    have hHead := hEq
    rw [hText, List.append_assoc] at hHead
    obtain rfl := (List.cons.inj (List.append_cancel_left hHead)).1
    refine h.gaps _ d rest hEq ?_ hLast hOutside
    rw [byteLength_append, byteLength_append, byteLength_cons, byteLength_cons, byteLength_nil]
    omega

theorem token (hText : text = done ++ (w ++ after)) (hLongest : Token.Longest w (w ++ after) t)
    (hAlone : Lexeme.ofText (String.ofList w) = .ok [⟨t, 0⟩])
    (h : Cut text (byteLength (done ++ w)) last spans) :
    Cut text (byteLength done) last
      (⟨t, byteLength done, byteLength (done ++ w)⟩ :: spans) := by
  have hMore : byteLength done < byteLength (done ++ w) := by
    rw [byteLength_append]
    have hPos := byteLength_pos hLongest.reads.ne_nil
    omega
  refine ⟨Nat.le_trans hMore.le h.le, ?_, ?_, ?_, ?_, ?_⟩
  · exact List.forall_mem_cons.2 ⟨hMore, h.nonempty⟩
  · exact List.pairwise_cons.2 ⟨fun s hs => (h.within s hs).1, h.ordered⟩
  · exact List.forall_mem_cons.2 ⟨⟨Nat.le_refl _, h.le⟩,
      fun s hs => ⟨Nat.le_trans hMore.le (h.within s hs).1, (h.within s hs).2⟩⟩
  · exact List.forall_mem_cons.2
      ⟨⟨done, w, after, hText, rfl, rfl, hLongest, hAlone⟩, h.reads⟩
  · -- what lies outside all spans lies behind the one that is added, for it lies behind `done`
    intro before d rest hEq hFirst hLast hOutside
    obtain ⟨hHere, hOthers⟩ := List.forall_mem_cons.1 hOutside
    refine h.gaps before d rest hEq ?_ hLast hOthers
    rcases hHere with hLess | hPast
    · exact absurd hFirst (Nat.not_le.2 hLess)
    · exact hPast

end Cut

/-! ## Reading a text -/

namespace Lexeme

variable {text done cs rest after w body : List Char} {c quote : Char} {t : Token} {n : Nat}

/-- No token begins with a blank. -/
theorem isSpace_of_reads (h : Token.Reads (c :: w) t) : Token.isSpace c = false := by
  have hNext := Token.next_eq_of_reads h
  by_contra hSpace
  simp only [Token.isSpace, Bool.not_eq_false, Bool.or_eq_true, decide_eq_true_eq] at hSpace
  rcases hSpace with ((rfl | rfl) | rfl) | rfl <;>
    simp [Token.next, Token.isWordStart] at hNext

/-- The text of a token is read as that token. -/
theorem ofText_of_reads (h : Token.Reads w t) : ofText (String.ofList w) = .ok [⟨t, 0⟩] := by
  cases w with
  | nil => exact absurd rfl h.ne_nil
  | cons c w =>
    rw [ofText, String.toList_ofList, scan, if_neg (by simp [isSpace_of_reads h]),
      Token.next_eq_of_reads h]
    simp only
    rw [List.drop_length, scan]

/-- What reading a text from a byte offset on comes to: the tokens up to its end, or the tokens up
to the first place where none begins. -/
def Splits (text : List Char) (first : Nat) : Except BadSequence (List Lexeme) → Prop
  | .ok ls => ∃ spans, spans.map Span.lexeme = ls ∧ Cut text first (byteLength text) spans
  | .error bad => ∃ spans before c after, text = before ++ c :: after ∧
      bad.position = byteLength before ∧ Cut text first bad.position spans ∧
      Token.isSpace c = false ∧ ∀ w t, w <+: c :: after → ¬Token.Reads w t

theorem Splits.blank {r : Except BadSequence (List Lexeme)} (hText : text = done ++ c :: after)
    (hSpace : Token.isSpace c = true) (h : Splits text (byteLength (done ++ [c])) r) :
    Splits text (byteLength done) r := by
  cases r with
  | ok ls =>
    obtain ⟨spans, hSpans, hCut⟩ := h
    exact ⟨spans, hSpans, hCut.blank hText hSpace⟩
  | error bad =>
    obtain ⟨spans, before, d, rest, hBad, hPlace, hCut, hNone⟩ := h
    exact ⟨spans, before, d, rest, hBad, hPlace, hCut.blank hText hSpace, hNone⟩

theorem Splits.token {r : Except BadSequence (List Lexeme)} (hText : text = done ++ (w ++ after))
    (hLongest : Token.Longest w (w ++ after) t) (h : Splits text (byteLength (done ++ w)) r) :
    Splits text (byteLength done) (r.map (⟨t, byteLength done⟩ :: ·)) := by
  have hAlone := ofText_of_reads hLongest.reads
  cases r with
  | ok ls =>
    obtain ⟨spans, rfl, hCut⟩ := h
    exact ⟨_, rfl, hCut.token hText hLongest hAlone⟩
  | error bad =>
    obtain ⟨spans, before, d, rest, hBad, hPlace, hCut, hNone⟩ := h
    exact ⟨_, before, d, rest, hBad, hPlace, hCut.token hText hLongest hAlone, hNone⟩

theorem splits_scan (done : List Char) (hText : text = done ++ cs) :
    Splits text (byteLength done) (scan (byteLength done) cs) := by
  induction h : cs.length using Nat.strongRecOn generalizing done cs with
  | _ n ih =>
    subst h
    cases cs with
    | nil =>
      rw [scan]
      rw [List.append_nil] at hText
      exact ⟨[], rfl, hText ▸ Cut.nil _ _⟩
    | cons c rest =>
      rw [scan]
      split
      · -- a blank belongs to no span
        next hSpace =>
        have hRest := ih rest.length (Nat.lt_succ_self _) (done ++ [c])
          (by rw [hText, List.append_assoc, List.singleton_append]) rfl
        rw [show byteLength done + c.utf8Size = byteLength (done ++ [c]) by
          rw [byteLength_append, byteLength_cons, byteLength_nil, Nat.add_zero]]
        exact hRest.blank hText hSpace
      · next hSpace =>
        split
        · next more hNext =>
          exact ⟨[], done, c, rest, hText, rfl, Cut.nil _ _, Bool.eq_false_iff.2 hSpace,
            fun w t hBegins => Token.not_reads_of_next hNext hBegins t⟩
        · next t more hNext =>
          have hHere : text = done ++ (c :: rest.take more ++ rest.drop more) := by
            rw [List.cons_append, List.take_append_drop, hText]
          have hLongest := Token.longest_of_next hNext
          have hShorter : (rest.drop more).length < (c :: rest).length := by
            -- the lexeme is read, and with what is behind it the text goes on shorter
            rw [List.length_drop, List.length_cons]
            omega
          have hRest := ih _ hShorter (done ++ c :: rest.take more)
            (by rw [hHere, List.append_assoc]) rfl
          have hSplits := hRest.token hHere (t := t)
            (by rwa [List.cons_append, List.take_append_drop])
          rw [← byteLength_append]
          revert hSplits
          cases scan (byteLength (done ++ c :: rest.take more)) (rest.drop more) <;> exact id

/-! ## Literals -/

/-- A text between quotes, with each backslash and each quote of that kind after a backslash. -/
def literal (quote : Char) (text : String) : List Char :=
  quote :: (text.toList.flatMap (fun c => if c = quote ∨ c = '\\' then ['\\', c] else [c]) ++
    [quote])

theorem reads_literal (hQuote : quote = '"' ∨ quote = '\'') (text : String) :
    Token.Reads (literal quote text) (.str text) := by
  have hText := Token.Reads.text hQuote (Token.body_escaped hQuote text.toList)
  rwa [String.ofList_toList] at hText

/-- The tokens of a text are the longest ones, one after the other with only blanks between them, up
to the end of the text or the first place where none begins. A text between quotes of either kind is
one token from end to end. -/
theorem splits_ofText (text : String) :
    Splits text.toList 0 (ofText text) ∧
    ∀ quote, quote = '"' ∨ quote = '\'' →
      ofText (String.ofList (literal quote text)) = .ok [⟨.str text, 0⟩] ∧
      Cut (literal quote text) 0 (byteLength (literal quote text))
        [⟨.str text, 0, byteLength (literal quote text)⟩] := by
  refine ⟨splits_scan [] rfl, fun quote hQuote => ?_⟩
  have hReads := reads_literal hQuote text
  have hAlone := ofText_of_reads hReads
  refine ⟨hAlone, ?_⟩
  -- nothing longer can be read: the literal is all there is
  have hWhole : Token.Longest (literal quote text) (literal quote text ++ []) (.str text) := by
    rw [List.append_nil]
    exact ⟨List.prefix_refl _, hReads, fun w' t' hBegins _ => hBegins.length_le⟩
  have hText : literal quote text = [] ++ (literal quote text ++ []) := by
    rw [List.nil_append, List.append_nil]
  exact Cut.token hText hWhole hAlone (Cut.nil _ _)

/-- A keyword and a name that begins with it, a sign of two characters, and a number before a point
that is none of its own; and a literal with either quote in it. -/
theorem splits_ofText_mixed :
    ofText "in inner<=1.x" = .ok [⟨.inWord, 0⟩, ⟨.ident "inner", 3⟩, ⟨.lessEq, 8⟩,
      ⟨.number (Token.numberValue ['1'] []), 10⟩, ⟨.dot, 11⟩, ⟨.ident "x", 12⟩] ∧
    Splits "in inner<=1.x".toList 0 (ofText "in inner<=1.x") ∧
    ('\'' = '"' ∨ '\'' = '\'') ∧
    ofText "'it\\'s \"so\"'" = .ok [⟨.str "it's \"so\"", 0⟩] := by
  refine ⟨?_, (splits_ofText "in inner<=1.x").1, .inr rfl, ?_⟩
  · simp [ofText, scan, Token.next, Token.isWordStart, Token.isWordPart, Token.isSpace,
      Token.ofWord, List.takeWhile, byteLength, Char.utf8Size]
  · exact ((splits_ofText "it's \"so\"").2 '\'' (.inr rfl)).1

end Lexeme

end ItemComposition
