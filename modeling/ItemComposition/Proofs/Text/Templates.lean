import ItemComposition.Proofs.Text.Placeholders

/-!
# Texts that are built from literals and placeholders

A template is a literal text and then any number of placeholders, each with a literal text behind it.
Its text is split where it was put together, whatever the names are, so that the values stand in the
place of the placeholders and nothing else changes. A value is not split: what looks like a placeholder
in it stays as it is.

## Key results

- `Template.pieces_text`: the text of a template is split into the parts that it was put together from
- `Template.expand_text`: the values are put in if all of them are there
- `expand_eq_error_iff`: otherwise the first name without a value is reported
-/

namespace ItemComposition.Placeholder

/-- A placeholder and the literal text behind it. -/
structure Part where
  name : String
  literal : String
  named : name ≠ ""
  closed : '\x7d' ∉ name.toList
  free : '$' ∉ literal.toList

/-- A literal text, and placeholders with the literal texts behind them. -/
structure Template where
  lead : String
  parts : List Part
  free : '$' ∉ lead.toList

/-- A placeholder as it is written, with the text behind it. -/
def Part.text (p : Part) : String := "$\x7b" ++ p.name ++ "\x7d" ++ p.literal

/-- A value in the place of a placeholder, with the text behind it. -/
def Part.filled (value : String → String) (p : Part) : String := value p.name ++ p.literal

/-- What a part is split into. -/
def Part.pieces (p : Part) : List Piece := .variable p.name :: p.literal.toList.map .char

namespace Template

/-- A template as it is written. -/
def text (t : Template) : String := t.lead ++ String.join (t.parts.map Part.text)

/-- A template with values in the place of its placeholders. -/
def filled (value : String → String) (t : Template) : String :=
  t.lead ++ String.join (t.parts.map (Part.filled value))

/-- The variables of a template, in order. -/
def names (t : Template) : List String := t.parts.map Part.name

end Template

/-! ## Where texts are split -/

theorem pieces_of_starts {cs after : List Char} {name : String} (h : Starts cs name after) :
    pieces cs = .variable name :: pieces after := by
  have hName : name? cs = some (name.toList, after) := by
    rwa [name?_eq_some_iff, String.ofList_toList]
  rw [pieces]
  split
  · rename_i found rest hFound
    obtain ⟨rfl, rfl⟩ := Prod.mk.inj (Option.some.inj (hFound.symm.trans hName))
    rw [String.ofList_toList]
  · rename_i hNone
    rw [hName] at hNone
    cases hNone

theorem pieces_cons_of_ne {c : Char} (cs : List Char) (h : c ≠ '$') :
    pieces (c :: cs) = .char c :: pieces cs := by
  have hNone : name? (c :: cs) = none := by
    cases hName : name? (c :: cs) with
    | none => rfl
    | some found => exact absurd (List.cons.inj (name?_eq_some_iff.1 hName).2.2).1 h
  rw [pieces]
  split
  · rename_i hFound
    rw [hNone] at hFound
    cases hFound
  · rfl

/-- A literal text is split into its characters. -/
theorem pieces_append_of_free {literal : List Char} (rest : List Char) (h : '$' ∉ literal) :
    pieces (literal ++ rest) = literal.map .char ++ pieces rest := by
  induction literal with
  | nil => rfl
  | cons c literal ih =>
    rw [List.mem_cons, not_or] at h
    rw [List.cons_append, pieces_cons_of_ne _ (Ne.symm h.1), ih h.2]
    rfl

theorem Part.pieces_append (p : Part) (rest : List Char) :
    Placeholder.pieces (p.text.toList ++ rest) = p.pieces ++ Placeholder.pieces rest := by
  -- the name has no closing brace, so that the placeholder ends where it was meant to
  have hStarts : Starts (p.text.toList ++ rest) p.name (p.literal.toList ++ rest) :=
    ⟨p.named, p.closed, by simp [Part.text]⟩
  rw [pieces_of_starts hStarts, pieces_append_of_free rest p.free]
  rfl

theorem pieces_join (parts : List Part) :
    pieces (String.join (parts.map Part.text)).toList = parts.flatMap Part.pieces := by
  induction parts with
  | nil => rw [List.map_nil, String.join_nil, String.toList_empty, pieces]; rfl
  | cons p parts ih =>
    rw [List.map_cons, String.join_cons, String.toList_append, p.pieces_append, ih,
      List.flatMap_cons]

/-- The text of a template is split into what it was put together from: no placeholder is missed, and
none is found across two of them. -/
theorem Template.pieces_text (t : Template) :
    pieces t.text.toList = t.lead.toList.map .char ++ t.parts.flatMap Part.pieces := by
  rw [Template.text, String.toList_append, pieces_append_of_free _ t.free, pieces_join]

/-! ## Names -/

theorem namesIn_append (ps qs : List Piece) : namesIn (ps ++ qs) = namesIn ps ++ namesIn qs :=
  List.filterMap_append

theorem namesIn_chars (cs : List Char) : namesIn (cs.map .char) = [] := by
  induction cs with
  | nil => rfl
  | cons c cs ih => rw [List.map_cons, namesIn_char, ih]

theorem Template.names_text (t : Template) : Placeholder.names t.text.toList = t.names := by
  have hParts : namesIn (t.parts.flatMap Part.pieces) = t.names := by
    rw [Template.names]
    induction t.parts with
    | nil => rfl
    | cons p parts ih =>
      rw [List.flatMap_cons, namesIn_append, ih, Part.pieces, namesIn_variable, namesIn_chars]
      rfl
  rw [names_eq, t.pieces_text, namesIn_append, namesIn_chars, hParts, List.nil_append]

/-! ## Values -/

section Values

variable {environment : Dict String}

/-- Values can be put into one part of a text after the other. -/
theorem fill_append {ps qs : List Piece} {cs ds : List Char} (hp : fill environment ps = .ok cs)
    (hq : fill environment qs = .ok ds) : fill environment (ps ++ qs) = .ok (cs ++ ds) := by
  induction ps generalizing cs with
  | nil =>
    obtain rfl := Except.ok.inj hp
    exact hq
  | cons p ps ih =>
    -- a character is copied, a variable must have a value
    obtain c | name := p
    · rw [fill] at hp
      cases hRest : fill environment ps with
      | error missing => simp only [hRest, reduceCtorEq] at hp
      | ok rest =>
        simp only [hRest, Except.ok.injEq] at hp
        rw [List.cons_append, fill, ih hRest, ← hp]
        rfl
    · rw [fill] at hp
      cases hValue : environment.get? name with
      | none => simp only [hValue, reduceCtorEq] at hp
      | some value =>
        cases hRest : fill environment ps with
        | error missing => simp only [hValue, hRest, reduceCtorEq] at hp
        | ok rest =>
          simp only [hValue, hRest, Except.ok.injEq] at hp
          rw [List.cons_append, fill]
          simp only [hValue, ih hRest, ← hp, List.append_assoc]

theorem fill_chars (cs : List Char) : fill environment (cs.map .char) = .ok cs := by
  induction cs with
  | nil => rfl
  | cons c cs ih => rw [List.map_cons, fill, ih]

theorem fill_parts {value : String → String} {parts : List Part}
    (h : ∀ p ∈ parts, environment.get? p.name = some (value p.name)) :
    fill environment (parts.flatMap Part.pieces) =
      .ok (String.join (parts.map (Part.filled value))).toList := by
  induction parts with
  | nil => rw [List.map_nil, String.join_nil, String.toList_empty]; rfl
  | cons p parts ih =>
    obtain ⟨hFirst, hRest⟩ := List.forall_mem_cons.1 h
    have hPart : fill environment p.pieces = .ok (p.filled value).toList := by
      rw [Part.pieces, fill, hFirst, fill_chars, Part.filled, String.toList_append]
    rw [List.flatMap_cons, fill_append hPart (ih hRest), List.map_cons, String.join_cons,
      String.toList_append]

/-- If all variables of a template have values, these stand in the place of the placeholders, and
everything else is as it was. What a value looks like does not matter, and neither does any other
variable. -/
theorem Template.expand_text {value : String → String} {t : Template}
    (h : ∀ name ∈ t.names, environment.get? name = some (value name)) :
    expand environment t.text = .ok (t.filled value) := by
  have hParts : ∀ p ∈ t.parts, environment.get? p.name = some (value p.name) :=
    fun p hp => h p.name (List.mem_map_of_mem hp)
  rw [expand, t.pieces_text, fill_append (fill_chars _) (fill_parts hParts), Template.filled,
    ← String.toList_append]
  exact congrArg _ String.ofList_toList

/-! ## Variables without values -/

/-- The first of some variables that has no value: all before it have one. -/
def FirstUnset (environment : Dict String) (names : List String) (name : String) : Prop :=
  environment.get? name = none ∧ ∃ earlier later, names = earlier ++ name :: later ∧
    ∀ other ∈ earlier, ∃ value, environment.get? other = some value

theorem find?_isNone_eq_some_iff {names : List String} {name : String} :
    names.find? (fun n => (environment.get? n).isNone) = some name ↔
      FirstUnset environment names name := by
  simp only [List.find?_eq_some_iff_append, FirstUnset, Option.isNone_iff_eq_none,
    Bool.not_eq_true', Option.isNone_eq_false_iff, Option.isSome_iff_exists]

theorem exists_firstUnset {names : List String} (h : ∃ name ∈ names, environment.get? name = none) :
    ∃ name, FirstUnset environment names name := by
  simp only [← find?_isNone_eq_some_iff, ← Option.isSome_iff_exists, List.find?_isSome]
  simpa using h

/-- Putting in the values stops at the first variable without one, as looking for it does. -/
theorem fill_eq_error_iff {ps : List Piece} {name : String} :
    fill environment ps = .error name ↔ FirstUnset environment (namesIn ps) name := by
  rw [← find?_isNone_eq_some_iff]
  induction ps with
  | nil => simp [fill, namesIn]
  | cons p ps ih =>
    obtain c | other := p
    · rw [namesIn_char, ← ih, fill]
      cases fill environment ps <;> simp
    · rw [namesIn_variable, List.find?_cons, fill]
      -- the first variable without a value decides
      cases environment.get? other with
      | none => simp
      | some value =>
        simp only [Option.isNone_some, ← ih]
        cases fill environment ps <;> simp

/-- The values cannot be put in exactly if one is missing, and then the first such name is known. -/
theorem expand_eq_error_iff {text name : String} :
    expand environment text = .error name ↔
      FirstUnset environment (names text.toList) name := by
  rw [names_eq, ← fill_eq_error_iff, expand]
  cases fill environment (pieces text.toList) <;> simp

end Values

end ItemComposition.Placeholder
