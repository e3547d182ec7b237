import ItemComposition.Proofs.Engine.Streams
import Mathlib.Data.List.ReduceOption

/-!
# The instructions of a stream

Which instructions a stream yields depends on its documents alone, each taken for itself: on no
registry, and on no document before (`Engine.collect`). From there it is seen which documents make
no difference, and what becomes of two streams in a row.

## Key results

- `outcome_eq_collect`: the registry has no part in the instructions
- `collect_eq_ok_iff`, `collect_eq_error_iff`: when there are instructions, and which error there is
- `forall₂_of_collect`: which instructions there are
- `collect_filter`, `collect_append`: silent documents, and streams in a row
- `outcome_instructions`: all of it for the reading of a stream
-/

namespace ItemComposition.Engine

variable {ε : Type}

/-! ## Documents -/

/-- The kind of a document is that of providers, blanks around it aside. -/
def IsProvider (document : Json) : Prop :=
  ∃ kind, document.get? "kind" = some (.str kind) ∧
    Text.trim kind = ProviderDocument.requiredKind

/-- What a document converts to: null and providers to no instruction, every other document to one.
A document that could not be decoded (none) converts to nothing. -/
inductive Converts (engine : Engine ε) : Option Json → Option Instruction → Prop where
  | null : Converts engine (some .null) none
  | provider {document : Json} {p : Provider ε} (kind : IsProvider document)
      (made : engine.provider document = .ok p) : Converts engine (some document) none
  | instruction {document : Json} {i : Instruction} (notNull : document ≠ .null)
      (kind : ¬ IsProvider document) (read : Instruction.ofDocument document = .ok i) :
      Converts engine (some document) (some i)

/-- Why a document does not convert. -/
inductive Fails (engine : Engine ε) : Option Json → StreamError → Prop where
  | malformed : Fails engine none .malformed
  | provider {document : Json} {cause : ProviderError} (kind : IsProvider document)
      (fails : engine.provider document = .error cause) :
      Fails engine (some document) (.provider cause)
  | instruction {document : Json} {cause : DocumentError} (notNull : document ≠ .null)
      (kind : ¬ IsProvider document) (fails : Instruction.ofDocument document = .error cause) :
      Fails engine (some document) (.document cause)

variable {engine : Engine ε} {document : Option Json}

theorem isProvider_iff {document : Json} : isProvider document = true ↔ IsProvider document := by
  rw [isProvider, IsProvider]
  split
  · rename_i kind hKind
    simp [hKind]
  · rename_i hNone
    simp only [Bool.false_eq_true, false_iff, not_exists, not_and]
    exact fun kind hKind => absurd hKind (hNone kind)

theorem isNull_iff {document : Json} : document.isNull = true ↔ document = .null := by
  cases document <;> simp [Json.isNull]

theorem ne_null_of_isProvider {document : Json} (h : IsProvider document) : document ≠ .null := by
  rintro rfl
  obtain ⟨kind, hKind, -⟩ := h
  cases hKind

theorem part_of_isProvider {document : Json} (h : IsProvider document) :
    engine.part (some document) =
      ((engine.provider document).map Part.provider).mapError .provider := by
  have hNull : ¬ document.isNull = true := fun hIs => ne_null_of_isProvider h (isNull_iff.1 hIs)
  rw [part, if_neg hNull, if_pos (isProvider_iff.2 h)]

theorem part_of_not_isProvider {document : Json} (hNull : document ≠ .null)
    (h : ¬ IsProvider document) :
    engine.part (some document) =
      ((Instruction.ofDocument document).map Part.instruction).mapError .document := by
  rw [part, if_neg (fun hIs => hNull (isNull_iff.1 hIs)),
    if_neg (fun hIs => h (isProvider_iff.1 hIs))]

/-- Each document converts or fails, as its part says. -/
theorem converts_or_fails (engine : Engine ε) (document : Option Json) :
    (∃ part, engine.part document = .ok part ∧ engine.Converts document part.instruction?) ∨
      ∃ e, engine.part document = .error e ∧ engine.Fails document e := by
  cases document with
  | none => exact .inr ⟨.malformed, rfl, .malformed⟩
  | some document =>
    -- the order of the tests is the engine's: nothing first, then a provider, then an instruction
    by_cases hNull : document = .null
    · subst hNull
      exact .inl ⟨.nothing, rfl, .null⟩
    by_cases hKind : IsProvider document
    · rw [part_of_isProvider hKind]
      cases hMade : engine.provider document with
      | ok p => exact .inl ⟨.provider p, rfl, .provider hKind hMade⟩
      | error cause => exact .inr ⟨.provider cause, rfl, .provider hKind hMade⟩
    · rw [part_of_not_isProvider hNull hKind]
      cases hRead : Instruction.ofDocument document with
      | ok i => exact .inl ⟨.instruction i, rfl, .instruction hNull hKind hRead⟩
      | error cause => exact .inr ⟨.document cause, rfl, .instruction hNull hKind hRead⟩

theorem converts_iff {result : Option Instruction} :
    engine.Converts document result ↔
      ∃ part, engine.part document = .ok part ∧ part.instruction? = result := by
  constructor
  · intro h
    cases h with
    | null => exact ⟨.nothing, rfl, rfl⟩
    | provider kind made =>
      rw [part_of_isProvider kind, made]
      exact ⟨.provider _, rfl, rfl⟩
    | instruction notNull kind read =>
      rw [part_of_not_isProvider notNull kind, read]
      exact ⟨.instruction _, rfl, rfl⟩
  · rintro ⟨part, hPart, rfl⟩
    -- a document converts or fails, and never both: the part that was read tells which
    obtain ⟨part', hPart', hConverts⟩ | ⟨e, hError, -⟩ := engine.converts_or_fails document
    · rw [hPart] at hPart'
      obtain rfl := Except.ok.inj hPart'
      exact hConverts
    · rw [hPart] at hError
      cases hError

theorem fails_iff {e : StreamError} : engine.Fails document e ↔ engine.part document = .error e := by
  constructor
  · intro h
    cases h with
    | malformed => rfl
    | provider kind fails =>
      rw [part_of_isProvider kind, fails]
      rfl
    | instruction notNull kind fails =>
      rw [part_of_not_isProvider notNull kind, fails]
      rfl
  · intro hError
    obtain ⟨part, hPart, -⟩ | ⟨e', hError', hFails⟩ := engine.converts_or_fails document
    · rw [hError] at hPart
      cases hPart
    · rw [hError] at hError'
      obtain rfl := Except.error.inj hError'
      exact hFails

/-! ## Streams -/

/-- The instructions of a stream, in order; the error of the first document that does not
convert. -/
def collect (engine : Engine ε) : List (Option Json) → Except StreamError (List Instruction)
  | [] => .ok []
  | document :: rest =>
    match engine.part document with
    | .error e => .error e
    | .ok part => (collect engine rest).map (part.instruction?.toList ++ ·)

/-- What reading a stream returns: its instructions or an error. -/
def outcome (engine : Engine ε) (registry : Registry ε) (documents : List (Option Json)) :
    Except StreamError (List Instruction) :=
  (engine.readDocuments registry documents).2.map fun _ =>
    (engine.readDocuments registry documents).1.instructions

variable {documents : List (Option Json)} {is : List Instruction}

theorem collect_cons_of_ok {part : Part ε} (h : engine.part document = .ok part)
    (rest : List (Option Json)) : engine.collect (document :: rest) =
      (engine.collect rest).map (part.instruction?.toList ++ ·) := by
  rw [collect, h]

theorem collect_cons_of_error {e : StreamError} (h : engine.part document = .error e)
    (rest : List (Option Json)) : engine.collect (document :: rest) = .error e := by
  rw [collect, h]

/-- Reading on adds the instructions of the remaining documents to those that are there. -/
theorem takeAll_instructions (engine : Engine ε) (r : Reading ε) (documents : List (Option Json)) :
    ((takeAll engine r documents).2.map fun _ => (takeAll engine r documents).1.instructions) =
      (engine.collect documents).map (r.instructions ++ ·) := by
  induction documents generalizing r with
  | nil =>
    show Except.ok r.instructions = .ok (r.instructions ++ [])
    rw [List.append_nil]
  | cons document rest ih =>
    cases hPart : engine.part document with
    | error e =>
      rw [takeAll_cons_of_error hPart, collect_cons_of_error hPart]
      rfl
    | ok part =>
      have hAdd : (r.add part).instructions = r.instructions ++ part.instruction?.toList := by
        -- a provider goes to the registry and adds no instruction
        cases part with
        | nothing | provider => exact (List.append_nil _).symm
        | instruction i => rfl
      rw [takeAll_cons_of_ok hPart, collect_cons_of_ok hPart, ih, hAdd]
      cases engine.collect rest with
      | error e => rfl
      | ok is => exact congrArg Except.ok (List.append_assoc _ _ _)

/-- The registry has no part in the instructions. -/
theorem outcome_eq_collect (engine : Engine ε) (registry : Registry ε)
    (documents : List (Option Json)) :
    engine.outcome registry documents = engine.collect documents := by
  have hAll := takeAll_instructions engine ⟨registry, [], []⟩ documents
  rw [outcome, readDocuments, hAll]
  cases engine.collect documents <;> rfl

/-- What all documents convert to, or the first document that does not convert. -/
theorem collect_cases (engine : Engine ε) (documents : List (Option Json)) :
    (∃ results, List.Forall₂ engine.Converts documents results ∧
      engine.collect documents = .ok results.reduceOption) ∨
    ∃ before bad after e, documents = before ++ bad :: after ∧
      (∀ document ∈ before, ∃ result, engine.Converts document result) ∧ engine.Fails bad e ∧
      engine.collect documents = .error e := by
  induction documents with
  | nil => exact .inl ⟨[], .nil, rfl⟩
  | cons document rest ih =>
    -- the first document that fails splits the list, and those after it are not looked at
    obtain ⟨part, hPart, hConverts⟩ | ⟨e, hError, hFails⟩ := engine.converts_or_fails document
    · rw [collect_cons_of_ok hPart]
      rcases ih with ⟨results, hResults, hRest⟩ | ⟨before, bad, after, e, rfl, hBefore, hBad, hRest⟩
      · left
        refine ⟨part.instruction? :: results, .cons hConverts hResults, ?_⟩
        rw [hRest]
        cases part.instruction? with
        | none => rw [List.reduceOption_cons_of_none]; rfl
        | some i => rw [List.reduceOption_cons_of_some]; rfl
      · right
        refine ⟨document :: before, bad, after, e, rfl, ?_, hBad, by rw [hRest]; rfl⟩
        exact List.forall_mem_cons.2 ⟨⟨_, hConverts⟩, hBefore⟩
    · exact .inr ⟨[], document, rest, e, rfl, nofun, hFails, collect_cons_of_error hError rest⟩

/-- No document both converts and fails. -/
theorem not_converts_of_fails {e : StreamError} (hFails : engine.Fails document e)
    (result : Option Instruction) : ¬ engine.Converts document result := by
  intro hConverts
  obtain ⟨part, hPart, -⟩ := converts_iff.1 hConverts
  rw [fails_iff.1 hFails] at hPart
  cases hPart

/-- There are instructions exactly if all documents convert. -/
theorem collect_eq_ok_iff : (∃ is, engine.collect documents = .ok is) ↔
    ∀ document ∈ documents, document ≠ some .null → ∃ result, engine.Converts document result := by
  rcases engine.collect_cases documents with ⟨results, hResults, hAll⟩ |
    ⟨before, bad, after, e, hSplit, -, hBad, hError⟩
  · -- all convert, the null ones to nothing: that a document is not null need not be asked
    have hBoth : List.Forall₂ (fun document result =>
        (∃ result, engine.Converts document result) ∧ engine.Converts document result)
        documents results := hResults.imp fun _ result h => ⟨⟨result, h⟩, h⟩
    obtain ⟨hConverts, -⟩ := (List.forall₂_and_left _ _).1 hBoth
    exact ⟨fun _ document hMem _ => hConverts document hMem, fun _ => ⟨_, hAll⟩⟩
  · constructor
    · rintro ⟨is, hIs⟩
      rw [hError] at hIs
      cases hIs
    · intro hAll
      have hMem : bad ∈ documents := by
        rw [hSplit]
        exact List.mem_append_right _ List.mem_cons_self
      -- null converts to nothing, so it is never the document that fails
      have hNull : bad ≠ some .null := by
        rintro rfl
        exact not_converts_of_fails hBad none .null
      obtain ⟨result, hConverts⟩ := hAll bad hMem hNull
      exact absurd hConverts (not_converts_of_fails hBad result)

/-- There is an error exactly if some document fails, and it is that of the first one. -/
theorem collect_eq_error_iff {e : StreamError} : engine.collect documents = .error e ↔
    ∃ before bad after, documents = before ++ bad :: after ∧
      (∀ document ∈ before, ∃ result, engine.Converts document result) ∧ engine.Fails bad e := by
  constructor
  · intro hError
    rcases engine.collect_cases documents with ⟨results, -, hAll⟩ |
      ⟨before, bad, after, e', hSplit, hBefore, hBad, hError'⟩
    · rw [hAll] at hError
      cases hError
    · rw [hError] at hError'
      obtain rfl := Except.error.inj hError'
      exact ⟨before, bad, after, hSplit, hBefore, hBad⟩
  · rintro ⟨before, bad, after, rfl, hBefore, hBad⟩
    induction before with
    | nil => exact collect_cons_of_error (fails_iff.1 hBad) after
    | cons document before ih =>
      obtain ⟨⟨result, hConverts⟩, hRest⟩ := List.forall_mem_cons.1 hBefore
      obtain ⟨part, hPart, -⟩ := converts_iff.1 hConverts
      rw [List.cons_append, collect_cons_of_ok hPart, ih hRest]
      rfl

/-- Whether a document is to become an instruction. -/
def isInstruction (document : Json) : Bool := !document.isNull && !isProvider document

/-- Each document that is to become an instruction becomes one, and no others do. -/
theorem forall₂_of_converts {results : List (Option Instruction)}
    (h : List.Forall₂ engine.Converts documents results) :
    List.Forall₂ (fun document i => Instruction.ofDocument document = .ok i)
      (documents.reduceOption.filter isInstruction) results.reduceOption := by
  induction h with
  | nil => exact .nil
  | cons hFirst _ ih =>
    cases hFirst with
    | null => exact ih
    | provider kind made =>
      -- a provider is dropped by the filter, and its result by `reduceOption`
      have hNot : ¬ isInstruction _ = true := fun hIs => by
        rw [isInstruction, isProvider_iff.2 kind, Bool.not_true, Bool.and_false] at hIs
        cases hIs
      rw [List.reduceOption_cons_of_some, List.filter_cons_of_neg hNot]
      exact ih
    | instruction notNull kind read =>
      rename_i document i
      have hIs : isInstruction document = true := by
        rw [isInstruction, Bool.and_eq_true, Bool.not_eq_true', Bool.not_eq_true']
        exact ⟨Bool.eq_false_iff.2 fun hNull => notNull (isNull_iff.1 hNull),
          Bool.eq_false_iff.2 fun hKind => kind (isProvider_iff.1 hKind)⟩
      rw [List.reduceOption_cons_of_some, List.reduceOption_cons_of_some,
        List.filter_cons_of_pos hIs]
      exact .cons read ih

/-- The instructions are those of the documents that are to become one, in order. -/
theorem forall₂_of_collect (h : engine.collect documents = .ok is) :
    List.Forall₂ (fun document i => Instruction.ofDocument document = .ok i)
      (documents.reduceOption.filter isInstruction) is := by
  rcases engine.collect_cases documents with ⟨results, hResults, hAll⟩ |
    ⟨before, bad, after, e, -, -, -, hError⟩
  · rw [hAll] at h
    cases h
    exact forall₂_of_converts hResults
  · rw [hError] at h
    cases h

/-! ## Silent documents and streams in a row -/

/-- Whether a document is null or describes a provider that can be made. -/
def isSilent (engine : Engine ε) : Option Json → Bool
  | none => false
  | some document => document.isNull || isProvider document && (engine.provider document).isOk

theorem part_of_isSilent (h : engine.isSilent document = true) :
    ∃ part, engine.part document = .ok part ∧ part.instruction? = none := by
  cases document with
  | none => cases h
  | some document =>
    rw [isSilent, Bool.or_eq_true, Bool.and_eq_true] at h
    apply converts_iff.1
    rcases h with hNull | ⟨hKind, hMade⟩
    · rw [isNull_iff.1 hNull]
      exact .null
    · cases hProvider : engine.provider document with
      | error cause =>
        rw [hProvider] at hMade
        cases hMade
      | ok p => exact .provider (isProvider_iff.1 hKind) hProvider

/-- Silent documents make no difference. -/
theorem collect_filter (engine : Engine ε) (documents : List (Option Json)) :
    engine.collect (documents.filter fun document => !engine.isSilent document) =
      engine.collect documents := by
  induction documents with
  | nil => rfl
  | cons document rest ih =>
    cases hSilent : engine.isSilent document with
    | true =>
      obtain ⟨part, hPart, hNone⟩ := part_of_isSilent hSilent
      rw [List.filter_cons_of_neg (by simp [hSilent]), ih, collect_cons_of_ok hPart, hNone]
      cases engine.collect rest <;> rfl
    | false =>
      rw [List.filter_cons_of_pos (by simp [hSilent]), collect, collect, ih]

theorem collect_append {more : List (Option Json)} {js : List Instruction}
    (hFirst : engine.collect documents = .ok is) (hMore : engine.collect more = .ok js) :
    engine.collect (documents ++ more) = .ok (is ++ js) := by
  induction documents generalizing is with
  | nil =>
    cases hFirst
    exact hMore
  | cons document rest ih =>
    obtain ⟨part, hPart, -⟩ | ⟨e, hError, -⟩ := engine.converts_or_fails document
    · rw [collect_cons_of_ok hPart] at hFirst
      rw [List.cons_append, collect_cons_of_ok hPart]
      -- as the whole of the first list has been collected, so has its rest
      cases hRest : engine.collect rest with
      | error e =>
        rw [hRest] at hFirst
        cases hFirst
      | ok rest' =>
        rw [hRest] at hFirst
        cases hFirst
        rw [ih hRest]
        exact congrArg Except.ok (List.append_assoc _ _ _).symm
    · rw [collect_cons_of_error hError] at hFirst
      cases hFirst

/-- Reading a stream returns instructions exactly if every document that is not null converts, and
then, in order, one for each document that is neither null nor a provider. Else it returns the error
of the first document that fails. Null documents and providers that can be made change nothing,
wherever they stand, and two streams in a row yield the instructions of the one and then those of
the other. Which providers are registered already has no part in any of this. -/
theorem outcome_instructions (engine : Engine ε) (registry : Registry ε)
    (documents : List (Option Json)) :
    let outcome := engine.outcome registry documents
    ((∃ is, outcome = .ok is) ↔
      ∀ document ∈ documents, document ≠ some .null → ∃ result, engine.Converts document result) ∧
    (∀ is, outcome = .ok is →
      List.Forall₂ (fun document i => Instruction.ofDocument document = .ok i)
        (documents.reduceOption.filter isInstruction) is) ∧
    (∀ e, outcome = .error e ↔ ∃ before bad after, documents = before ++ bad :: after ∧
      (∀ document ∈ before, ∃ result, engine.Converts document result) ∧ engine.Fails bad e) ∧
    (∀ others registry', (others.filter fun document => !engine.isSilent document) =
        (documents.filter fun document => !engine.isSilent document) →
      engine.outcome registry' others = outcome) ∧
    ∀ more is js registry' registry'', outcome = .ok is → engine.outcome registry' more = .ok js →
      engine.outcome registry'' (documents ++ more) = .ok (is ++ js) := by
  intro outcome
  -- the instructions do not depend on the registry: it is enough to look at what is collected
  have hOutcome : outcome = engine.collect documents := outcome_eq_collect engine registry documents
  simp only [hOutcome, outcome_eq_collect]
  refine ⟨collect_eq_ok_iff, fun is => forall₂_of_collect, fun e => collect_eq_error_iff, ?_, ?_⟩
  · intro others _ hSame
    rw [← collect_filter engine others, hSame, collect_filter]
  · intro more is js _ _ hFirst hMore
    exact collect_append hFirst hMore

/-- A document of a view without templates. -/
def viewDocument : Json :=
  Json.object [("version", .str "v1"), ("kind", .str " View ")]

/-- A view on its own, between null and a provider, and after itself; and a view before a document
that could not be decoded. -/
theorem outcome_instructions_views :
    let view := some viewDocument
    let around := [some .null, view, some (plainDocument "a")]
    (∀ document ∈ around, document ≠ some .null → ∃ result, plainEngine.Converts document result) ∧
    ∃ i, Instruction.ofDocument viewDocument = .ok i ∧
      plainEngine.outcome .empty [view] = .ok [i] ∧
      plainEngine.outcome plainRegistry around = .ok [i] ∧
      plainEngine.outcome .empty ([view] ++ around) = .ok [i, i] ∧
      plainEngine.outcome .empty [view, none] = .error .malformed := by
  intro view around
  have hSome : (Instruction.ofDocument viewDocument).isOk = true := by decide +kernel
  have hKind : ¬ IsProvider viewDocument := by
    rw [← isProvider_iff]
    decide +kernel
  have hProvider : IsProvider (plainDocument "a") := isProvider_iff.1 (by decide +kernel)
  have hNull : plainEngine.isSilent (some .null) = true := rfl
  -- the null document and the provider are silent, so the streams differ in nothing that is heard
  have hLoud : plainEngine.isSilent view = false := by decide +kernel
  have hQuiet : plainEngine.isSilent (some (plainDocument "a")) = true := by decide +kernel
  have hSame : (around.filter fun document => !plainEngine.isSilent document) =
      [view].filter fun document => !plainEngine.isSilent document := by
    simp only [around, List.filter_cons, hNull, hLoud, hQuiet]
    rfl
  cases hView : Instruction.ofDocument viewDocument with
  | error cause =>
    rw [hView] at hSome
    cases hSome
  | ok i =>
    have hFirst : plainEngine.Converts view (some i) := .instruction nofun hKind hView
    obtain ⟨hOk, hEach, -, hSilent, -⟩ := outcome_instructions plainEngine .empty [view]
    obtain ⟨is, hIs⟩ := hOk.2 fun document hMem _ => ⟨some i, List.mem_singleton.1 hMem ▸ hFirst⟩
    obtain rfl : is = [i] := by
      have hOne := hEach is hIs
      have hAlone : [view].reduceOption.filter isInstruction = [viewDocument] :=
        List.filter_cons_of_pos (by decide +kernel)
      rw [hAlone, List.forall₂_cons_left_iff] at hOne
      obtain ⟨j, rest, hRead, hNone, rfl⟩ := hOne
      rw [hView] at hRead
      rw [List.forall₂_nil_left_iff.1 hNone, Except.ok.inj hRead]
    have hAround := hSilent around plainRegistry hSame
    rw [hIs] at hAround
    obtain ⟨hConverts, -, -, -, -⟩ := outcome_instructions plainEngine plainRegistry around
    obtain ⟨-, -, -, -, hRow⟩ := outcome_instructions plainEngine .empty [view]
    obtain ⟨-, -, hError, -⟩ := outcome_instructions plainEngine .empty [view, none]
    refine ⟨hConverts.1 ⟨_, hAround⟩, i, rfl, hIs, hAround, ?_, ?_⟩
    · exact hRow around [i] [i] plainRegistry .empty hIs hAround
    · apply (hError .malformed).2
      refine ⟨[view], none, [], rfl, fun document hMem => ?_, .malformed⟩
      exact ⟨some i, List.mem_singleton.1 hMem ▸ hFirst⟩

end ItemComposition.Engine
