import ItemComposition.Condition
import ItemComposition.Proofs.Engine.Streams
import ItemComposition.Proofs.Expr.Printing

/-!
# Paths to providers

A provider may have any name that is not blank, and a path is an expression. So not every provider
can be named in a path: only one whose name the expressions read as an identifier, other than the
two that stand for the item and the context.

## Key results

- `Lexeme.isName_of_mem_scan`: the identifiers among the tokens of a text
- `Expr.ident_mem_of_root?`: the root of an expression is one of its tokens
- `PathTarget.isName_of_parse`, `PathTarget.parse_of_isName`: which names can be providers of paths
- `ProviderSpec.addressable_iff`: which of the accepted providers can be addressed
-/

namespace ItemComposition

/-! ## Identifiers among tokens -/

namespace Token

/-- A word that is no keyword stands for itself. -/
theorem ofWord_eq_ident {word name : String} (h : ofWord word = .ident name) :
    name = word ∧ keywords.contains word = false := by
  unfold ofWord at h
  split at h
  · cases h
  · split at h
    · cases h
    · split at h
      · cases h
      · split at h
        · cases h
        · rename_i hTrue hFalse hNull hIn
          rw [Bool.or_eq_true, decide_eq_true_eq, decide_eq_true_eq, not_or] at hNull
          refine ⟨(ident.inj h).symm, ?_⟩
          simp [keywords, hTrue, hFalse, hNull, hIn]

theorem isName_of_next {c : Char} {rest : List Char} {name : String} {more : Nat}
    (h : next c rest = .ok (.ident name, more)) : isName name = true := by
  unfold next at h
  split at h
  · rename_i hStart
    obtain ⟨rfl, hKeyword⟩ := ofWord_eq_ident (congrArg Prod.fst (Except.ok.inj h))
    rw [isName, String.toList_ofList]
    simp only [hStart, List.all_takeWhile, hKeyword, Bool.not_false, Bool.and_self]
  · -- all other tokens are no identifiers
    split at h
    · cases h
    · split at h
      · split at h <;> cases h
      · split at h <;> cases h

end Token

namespace Lexeme

/-- The identifiers among the tokens of a text are names. -/
theorem isName_of_mem_scan {pos : Nat} {cs : List Char} {lexemes : List Lexeme} {name : String}
    (h : scan pos cs = .ok lexemes) (hMem : .ident name ∈ lexemes.map token) :
    Token.isName name = true := by
  -- by induction on the length of the text, as a token may take several characters
  induction hLength : cs.length using Nat.strong_induction_on generalizing pos cs lexemes with
  | _ n ih =>
    subst hLength
    cases cs with
    | nil =>
      rw [scan] at h
      cases h
      cases hMem
    | cons c rest =>
      rw [scan] at h
      split at h
      · exact ih rest.length (Nat.lt_succ_self _) h hMem rfl
      · split at h
        · cases h
        · rename_i t more hNext
          split at h
          · cases h
          · rename_i others hRest
            have hShorter : (rest.drop more).length < (c :: rest).length := by
              simp only [List.length_drop, List.length_cons]
              omega
            cases h
            rcases List.mem_cons.1 hMem with hFirst | hLater
            · obtain rfl : .ident name = t := hFirst
              exact Token.isName_of_next hNext
            · exact ih _ hShorter hRest hLater rfl

end Lexeme

/-! ## Roots -/

namespace Expr

open Grammar

/-- The root identifier of what a phrase stands for. -/
def Grammar.Phrase.root? : (p : Phrase) → p.Tree → Option String
  | .expression, e | .binary _, e | .unary, e | .chain, e | .primary, e => Expr.root? e
  | .items, _ | .entries, _ => none

/-- The root of an expression is one of its tokens. -/
theorem ident_mem_of_root? {p : Phrase} {ts : List Token} {e : p.Tree} {name : String}
    (h : Derives p ts e) (hRoot : p.root? e = some name) : .ident name ∈ ts := by
  induction h with
  | plain _ ih | tighter _ _ _ ih | operand _ ih | chain _ ih | primary _ ih => exact ih hRoot
  | field _ ih | index _ _ ih => exact List.mem_append_left _ (ih hRoot)
  | ident =>
    obtain rfl := Option.some.inj hRoot
    exact List.mem_singleton_self _
  | parens _ ih => exact List.mem_cons_of_mem _ (List.mem_append_left _ (ih hRoot))
  | _ => cases hRoot

/-- The tokens of a text that parses. -/
theorem derives_of_parse {source : String} {e : Expr} (h : Expr.parse source = .ok e) :
    ∃ lexemes, Lexeme.ofText source = .ok lexemes ∧
      Derives .expression (lexemes.map Lexeme.token) e := by
  unfold Expr.parse at h
  cases hText : Lexeme.ofText source with
  | error bad => simp [hText] at h
  | ok lexemes =>
    cases hTokens : ofTokens source.utf8ByteSize lexemes with
    | error cause => simp [hText, hTokens] at h
    | ok e' =>
      simp only [hText, hTokens, Except.ok.injEq] at h
      subst h
      exact ⟨lexemes, rfl, (Parser.outcome_expression_eq_some_iff _).1
        ((Parser.ofTokens_eq_ok _).1 hTokens)⟩

/-- The provider of a call is the root of its path. -/
theorem root?_of_splitCall? {root provider method : String} {e rest : Expr}
    (h : e.splitCall? root = some (provider, method, rest)) : e.root? = some provider := by
  fun_induction splitCall? root e generalizing rest with
  | case1 => exact congrArg _ (Prod.mk.inj (Option.some.inj h)).1
  | case2 target field _ name call inner hInner ih | case4 target key name call inner hInner ih =>
    obtain ⟨rfl, hCall⟩ := Prod.mk.inj (Option.some.inj h)
    obtain ⟨rfl, -⟩ := Prod.mk.inj hCall
    exact ih hInner
  | case3 | case5 | case6 => cases h

/-- Two names with a point between them are read as a member. -/
theorem parse_member {name field : String} (hName : Token.isName name = true)
    (hField : Token.isName field = true) :
    Expr.parse (name ++ "." ++ field) = .ok (.member (.ident name) field) := by
  -- the text is the one that is printed for the member
  have hPrintable : isPrintable (.member (.ident name) field) = true := by
    simp only [isPrintable, hName, hField, Bool.and_self]
  obtain ⟨ts, hSpells, hStands⟩ := (printed_bareText _ hPrintable).read
  have hText : (name ++ "." ++ field).toList = bareText (.member (.ident name) field) := by
    simp [bareText, enclosed, level, String.toList_append]
  have hTokens : Lexeme.tokens? (name ++ "." ++ field).toList = some ts := by
    have hAll := hSpells [] Lexeme.separates_nil
    rw [List.append_nil] at hAll
    simpa [hText] using hAll
  exact parse_of_tokens? hTokens hStands.expression

end Expr

/-! ## Paths -/

namespace PathTarget

/-- Only a name can be the provider of a path, and neither of the names that are taken. -/
theorem isName_of_parse {source provider method : String} {rest : Expr}
    (h : parse source = .provider provider method rest) :
    Token.isName provider = true ∧ provider ≠ itemName ∧ provider ≠ contextName := by
  unfold parse at h
  cases hParse : Expr.parse source with
  | error cause => simp [hParse] at h
  | ok e =>
    simp only [hParse, ofExpr] at h
    split at h
    · cases h
    · rename_i root hRoot
      split at h
      · cases h
      · rename_i hFree
        split at h
        · rename_i hSplit
          cases h
          -- the provider of the call is the root, and so an identifier of the text
          obtain rfl : root = provider :=
            Option.some.inj (hRoot.symm.trans (Expr.root?_of_splitCall? hSplit))
          obtain ⟨lexemes, hText, hDerives⟩ := Expr.derives_of_parse hParse
          have hMem := Expr.ident_mem_of_root? hDerives hRoot
          rw [Bool.or_eq_true, decide_eq_true_eq, decide_eq_true_eq, not_or] at hFree
          exact ⟨Lexeme.isName_of_mem_scan hText hMem, hFree⟩
        · cases h

/-- Such a name is the provider of the path to a method, which goes on with the answer. -/
theorem parse_of_isName {provider method : String} (hName : Token.isName provider = true)
    (hItem : provider ≠ itemName) (hContext : provider ≠ contextName)
    (hMethod : Token.isName method = true) :
    parse (provider ++ "." ++ method) = .provider provider method (.ident itemName) := by
  rw [parse, Expr.parse_member hName hMethod]
  show ofExpr (.member (.ident provider) method) = _
  have hFree : ¬ (provider = itemName || provider = contextName) = true := by
    rw [Bool.or_eq_true, decide_eq_true_eq, decide_eq_true_eq, not_or]
    exact ⟨hItem, hContext⟩
  simp only [ofExpr, Expr.root?, if_neg hFree, Expr.splitCall?]

end PathTarget

namespace ProviderSpec

variable {ν : Type} {f : DataFormat ν} {environment : Dict String} {v : ν} {spec : ProviderSpec}

/-- A provider has the name that its document gives it, as it is written. -/
theorem name_of_ofValue (h : ofValue f environment v = .ok spec) :
    ∃ d, ProviderDocument.read? f v = some d ∧ spec.name = d.name := by
  unfold ofValue at h
  cases hRead : ProviderDocument.read? f v with
  | none => simp [hRead] at h
  | some d =>
    refine ⟨d, rfl, ?_⟩
    -- whatever may be refused on the way, the name is taken as it is
    simp only [hRead, build] at h
    split at h
    · cases h
    · simp only [ProviderDocument.spec, bind, Except.bind] at h
      split at h
      · cases h
      · split at h
        · cases h
        · split at h
          · cases h
          · cases h
            rfl

/-- Of the providers that are accepted, those can be addressed by paths whose name, as it is
written, is an identifier and stands neither for the item nor for the context. The path to any
method with an identifier as its name is then read as exactly this provider and method, rooted in
the answer, and else it is not read as that. -/
theorem addressable_iff (f : DataFormat ν) (environment : Dict String) (v : ν) (spec : ProviderSpec)
    (h : ofValue f environment v = .ok spec) :
    ∃ d, ProviderDocument.read? f v = some d ∧ spec.name = d.name ∧
      ∀ m ∈ spec.methods, Token.isName m.method = true →
        ((∃ rest, PathTarget.parse (d.name ++ "." ++ m.method) =
            .provider d.name m.method rest) ↔
          Token.isName d.name = true ∧ d.name ≠ PathTarget.itemName ∧
            d.name ≠ PathTarget.contextName) ∧
        ∀ rest, PathTarget.parse (d.name ++ "." ++ m.method) = .provider d.name m.method rest →
          rest = .ident PathTarget.itemName := by
  obtain ⟨d, hRead, hName⟩ := name_of_ofValue h
  refine ⟨d, hRead, hName, fun m _ hMethod => ⟨⟨?_, ?_⟩, ?_⟩⟩
  · -- the name is written as one word and is none of the two that the scope has taken
    rintro ⟨rest, hParse⟩
    exact PathTarget.isName_of_parse hParse
  · rintro ⟨hIs, hItem, hContext⟩
    exact ⟨_, PathTarget.parse_of_isName hIs hItem hContext hMethod⟩
  · intro rest hParse
    obtain ⟨hIs, hItem, hContext⟩ := PathTarget.isName_of_parse hParse
    rw [PathTarget.parse_of_isName hIs hItem hContext hMethod] at hParse
    exact (PathTarget.provider.inj hParse).2.2.symm

/-- A plain document is accepted, if its name and its method are found in what is read. -/
theorem exists_of_plainDocument {name : String}
    (h : (ofDocument [] (Engine.plainDocument name)).toOption.map
      (fun spec => (spec.name, spec.methods.map MethodSpec.method)) = some (name, ["M"])) :
    ∃ spec, ofDocument [] (Engine.plainDocument name) = .ok spec ∧ spec.name = name ∧
      ∃ m ∈ spec.methods, m.method = "M" := by
  cases hSpec : ofDocument [] (Engine.plainDocument name) with
  | error cause =>
    rw [hSpec] at h
    cases h
  | ok spec =>
    rw [hSpec] at h
    obtain ⟨hName, hMethods⟩ := Prod.mk.inj (Option.some.inj h)
    have hMem : "M" ∈ spec.methods.map MethodSpec.method := by
      rw [hMethods]
      exact List.mem_singleton_self _
    exact ⟨spec, rfl, hName, List.mem_map.1 hMem⟩

/-- The method of a provider that can be addressed. -/
theorem addressable_iff_cards :
    ∃ spec, ofDocument [] (Engine.plainDocument "cards") = .ok spec ∧ spec.name = "cards" ∧
      ∃ m ∈ spec.methods, Token.isName m.method = true ∧ ∃ rest,
        PathTarget.parse ("cards" ++ "." ++ m.method) = .provider "cards" m.method rest ∧
          rest = .ident PathTarget.itemName := by
  obtain ⟨spec, hSpec, hName, m, hMem, hM⟩ :=
    exists_of_plainDocument (show _ = some ("cards", ["M"]) by decide +kernel)
  have hMethod : Token.isName m.method = true := by
    rw [hM]
    decide
  obtain ⟨d, -, hSame, hAll⟩ := addressable_iff .json [] (Engine.plainDocument "cards") spec hSpec
  obtain ⟨hParse, hRest⟩ := hAll m hMem hMethod
  rw [← hSame, hName] at hParse hRest
  obtain ⟨rest, hProvider⟩ := hParse.2 ⟨by decide, by decide, by decide⟩
  exact ⟨spec, hSpec, hName, m, hMem, hMethod, rest, hProvider, hRest rest hProvider⟩

/-- Not all of them can be: in a path a name with a hyphen is a difference. -/
theorem not_addressable : ¬ ∀ (environment : Dict String) (document : Json) (spec : ProviderSpec),
    ofDocument environment document = .ok spec →
      ∀ m ∈ spec.methods, Token.isName m.method = true →
        ∃ rest, PathTarget.parse (spec.name ++ "." ++ m.method) =
          -- the name has a hyphen, which ends the word
          .provider spec.name m.method rest := by
  intro hAll
  obtain ⟨spec, hSpec, hName, m, hMem, hM⟩ :=
    exists_of_plainDocument (show _ = some ("my-cards", ["M"]) by decide +kernel)
  have hMethod : Token.isName m.method = true := by
    rw [hM]
    decide
  obtain ⟨rest, hParse⟩ := hAll [] _ spec hSpec m hMem hMethod
  obtain ⟨hIs, -⟩ := PathTarget.isName_of_parse hParse
  rw [hName] at hIs
  exact absurd hIs (by decide)

end ProviderSpec

end ItemComposition
