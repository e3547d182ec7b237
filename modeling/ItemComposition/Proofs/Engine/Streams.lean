import ItemComposition.Engine
import ItemComposition.Proofs.Provider.Registrations
import Mathlib.Data.List.Forall2

/-!
# What reading a stream leaves behind

Every document of a stream stands for a part of its own: nothing, a provider or an instruction, or
for an error (`Engine.part`). Reading takes in the parts in order, up to the first document that
stands for an error. That a provider is registered when its document is met is not taken back when
a later document is not in order: reading is all or nothing for the instructions, not for the
registry.

## Key results

- `takeAll_cases`: where reading ends
- `foldl_add`: what the parts of documents make of a registry
- `readDocuments_error`: the registry and the closed providers after a reading that fails
-/

namespace ItemComposition

variable {ε : Type}

/-- What a document that is in order stands for. -/
inductive Part (ε : Type) where
  | nothing
  | provider (p : Provider ε)
  | instruction (i : Instruction)

namespace Part

def provider? : Part ε → Option (Provider ε)
  | provider p => some p
  | _ => none

def instruction? : Part ε → Option Instruction
  | instruction i => some i
  | _ => none

end Part

/-- Takes in a part. -/
def Reading.add (r : Reading ε) : Part ε → Reading ε
  | .nothing => r
  | .provider p => Engine.register r p
  | .instruction i => { r with instructions := r.instructions ++ [i] }

namespace Engine

/-- The part that a document stands for, whatever was read before; none stands for a document that
could not be decoded. -/
def part (engine : Engine ε) : Option Json → Except StreamError (Part ε)
  | none => .error .malformed
  | some document =>
    if document.isNull then .ok .nothing
    else if isProvider document then
      ((engine.provider document).map Part.provider).mapError .provider
    else ((Instruction.ofDocument document).map Part.instruction).mapError .document

variable {engine : Engine ε} {r : Reading ε}

theorem take_eq (engine : Engine ε) (r : Reading ε) (document : Json) :
    engine.take r document = (engine.part (some document)).map r.add := by
  unfold take part
  simp only
  by_cases hNull : document.isNull = true
  · rw [if_pos hNull, if_pos hNull]
    rfl
  rw [if_neg hNull, if_neg hNull]
  by_cases hProvider : isProvider document = true
  · rw [if_pos hProvider, if_pos hProvider]
    cases engine.provider document <;> rfl
  · rw [if_neg hProvider, if_neg hProvider]
    cases Instruction.ofDocument document <;> rfl

/-- Documents and the parts that they stand for. -/
abbrev Parts (engine : Engine ε) : List (Option Json) → List (Part ε) → Prop :=
  List.Forall₂ fun document part => engine.part document = .ok part

theorem takeAll_cons_of_ok {document : Option Json} {part : Part ε}
    (h : engine.part document = .ok part) (rest : List (Option Json)) :
    takeAll engine r (document :: rest) = takeAll engine (r.add part) rest := by
  cases document with
  | none => cases h
  | some document =>
    rw [takeAll, take_eq, h]
    rfl

theorem takeAll_cons_of_error {document : Option Json} {e : StreamError}
    (h : engine.part document = .error e) (rest : List (Option Json)) :
    takeAll engine r (document :: rest) = (r, .error e) := by
  cases document with
  | none =>
    cases h
    rfl
  | some document =>
    rw [takeAll, take_eq, h]
    rfl

/-- Reading ends with the stream or with the first document that is not in order. -/
theorem takeAll_cases (engine : Engine ε) (r : Reading ε) (documents : List (Option Json)) :
    (∃ parts, engine.Parts documents parts ∧
      takeAll engine r documents = (parts.foldl Reading.add r, .ok ())) ∨
    ∃ before bad after parts e, documents = before ++ bad :: after ∧ engine.Parts before parts ∧
      engine.part bad = .error e ∧
      takeAll engine r documents = (parts.foldl Reading.add r, .error e) := by
  induction documents generalizing r with
  | nil => exact .inl ⟨[], .nil, rfl⟩
  | cons document rest ih =>
    -- what stands before the first failure has been taken by then, and stays taken
    cases hPart : engine.part document with
    | error e =>
      right
      exact ⟨[], document, rest, [], e, rfl, .nil, hPart, takeAll_cons_of_error hPart rest⟩
    | ok part =>
      rw [takeAll_cons_of_ok hPart rest]
      rcases ih (r.add part) with ⟨parts, hParts, hAll⟩ |
        ⟨before, bad, after, parts, e, rfl, hParts, hBad, hAll⟩
      · exact .inl ⟨part :: parts, .cons hPart hParts, hAll⟩
      · exact .inr ⟨document :: before, bad, after, part :: parts, e, rfl, .cons hPart hParts, hBad,
          hAll⟩

/-- Parts add their providers to the registry and their instructions to the list, each in order. -/
theorem foldl_add (r : Reading ε) (parts : List (Part ε)) :
    parts.foldl Reading.add r =
      ⟨(r.registry.registerAll (parts.filterMap Part.provider?)).1,
        r.closed ++ (r.registry.registerAll (parts.filterMap Part.provider?)).2,
        r.instructions ++ parts.filterMap Part.instruction?⟩ := by
  induction parts generalizing r with
  | nil => simp [Registry.registerAll]
  | cons part parts ih =>
    rw [List.foldl_cons, ih]
    cases part <;>
      simp [List.filterMap_cons, Reading.add, register, Part.provider?, Part.instruction?,
        Registry.registerAll]

/-- When a reading fails, the providers of the documents before the one that is not in order are
registered, one after the other, and stay so; nothing else changes the registry, and nothing else
is closed than what they replace. So only if there are no providers among those documents the
registry is as before. -/
theorem readDocuments_error {registry : Registry ε} {documents : List (Option Json)}
    {e : StreamError} (h : (engine.readDocuments registry documents).2 = .error e) :
    let reading := (engine.readDocuments registry documents).1
    ∃ before bad after parts, documents = before ++ bad :: after ∧ engine.Parts before parts ∧
      engine.part bad = .error e ∧
      let ps := parts.filterMap Part.provider?
      (reading.registry, reading.closed) = registry.registerAll ps ∧
      (reading.registry = registry ↔ ps = []) ∧ (ps = [] → reading.closed = []) ∧
      (∀ name ∉ ps.map Provider.name, reading.registry.get? name = registry.get? name) ∧
      (∀ earlier p later, ps = earlier ++ p :: later → p.name ∉ later.map Provider.name →
        reading.registry.get? p.name = some ⟨p, registry.latest + earlier.length + 1⟩) ∧
      (∀ name old, registry.get? name = some old → name ∈ ps.map Provider.name →
        old ∈ reading.closed) ∧
      ∀ old ∈ reading.closed, (∃ name ∈ ps.map Provider.name, registry.get? name = some old) ∨
        old.provider ∈ ps ∧ registry.latest < old.generation := by
  intro reading
  rcases engine.takeAll_cases ⟨registry, [], []⟩ documents with ⟨parts, -, hAll⟩ |
    ⟨before, bad, after, parts, e', hSplit, hParts, hBad, hAll⟩
  · rw [readDocuments, hAll] at h
    cases h
  · have hSame : e' = e := by
      rw [readDocuments, hAll] at h
      exact Except.error.inj h
    -- the registry is that of the providers before the bad document, so the rest is about
    -- registering
    have hReading : reading = _ := (congrArg Prod.fst hAll).trans (foldl_add _ parts)
    refine ⟨before, bad, after, parts, hSplit, hParts, hSame ▸ hBad, ?_⟩
    rw [hReading]
    refine ⟨rfl, Registry.registerAll_eq_self_iff, fun hNone => by rw [hNone]; rfl, ?_, ?_, ?_, ?_⟩
    · exact fun name hName => Registry.get?_registerAll_of_not_mem hName
    · intro earlier p later hPs hLast
      rw [hPs]
      exact Registry.get?_registerAll_last hLast
    · exact fun name old hOld hMem => Registry.mem_replaced_registerAll hOld hMem
    · exact fun old hOld => Registry.of_mem_replaced_registerAll hOld

/-! ## A provider before a document that is not in order -/

/-- A document that describes a provider with one method. -/
def plainDocument (name : String) : Json :=
  let method := Json.object [("package", .str "p"), ("service", .str "S"), ("method", .str "M"),
    ("type", .str "Item"), ("timeout", .str "1s"), ("request", Json.object []),
    ("response", Json.object [])]
  Json.object [("version", .str "v1"), ("kind", .str ProviderDocument.requiredKind),
    ("metadata", Json.object [("name", .str name)]),
    ("spec", Json.object [
      ("transport", Json.object [("address", .str "localhost:50051"), ("timeout", .str "1s")]),
      ("payload", Json.object [("headers", Json.object [])]),
      ("methods", .arr [method])])]

/-- An engine whose providers call real services. -/
def plainEngine : Engine Endpoint := ofServices ⟨[], fun _ => none⟩ .standard

/-- A registry in which a stream of one document has registered a provider. -/
def plainRegistry : Registry Endpoint :=
  (plainEngine.readDocuments .empty [some (plainDocument "a")]).1.registry

/-- A stream that describes the provider once more and is then not well formed. -/
def brokenStream : List (Option Json) := [some (plainDocument "a"), none]

theorem exists_error_brokenStream :
    ∃ e, (plainEngine.readDocuments plainRegistry brokenStream).2 = .error e := by
  have hNone : (plainEngine.readDocuments plainRegistry brokenStream).2.toOption = none := by
    decide +kernel
  cases hEnd : (plainEngine.readDocuments plainRegistry brokenStream).2 with
  | ok u =>
    rw [hEnd] at hNone
    cases hNone
  | error e => exact ⟨e, rfl⟩

/-- What the documents before the failing one of this stream have registered. -/
theorem readDocuments_error_brokenStream :
    let reading := (plainEngine.readDocuments plainRegistry brokenStream).1
    ∃ before bad after parts e,
      (plainEngine.readDocuments plainRegistry brokenStream).2 = .error e ∧
      brokenStream = before ++ bad :: after ∧ plainEngine.Parts before parts ∧
      plainEngine.part bad = .error e ∧
      (reading.registry, reading.closed) =
        plainRegistry.registerAll (parts.filterMap Part.provider?) := by
  obtain ⟨e, hFails⟩ := exists_error_brokenStream
  obtain ⟨before, bad, after, parts, hSplit, hParts, hBad, hRegistered, -⟩ :=
    readDocuments_error hFails
  exact ⟨before, bad, after, parts, e, hFails, hSplit, hParts, hBad, hRegistered⟩

/-- Reading is not all or nothing for the registry: the provider that was there is replaced and
closed by a stream that cannot be read. -/
theorem not_registry_restored : ¬ ∀ (engine : Engine Endpoint) (registry : Registry Endpoint)
    (documents : List (Option Json)) (e : StreamError),
    (engine.readDocuments registry documents).2 = .error e →
      (engine.readDocuments registry documents).1.registry = registry ∧
        (engine.readDocuments registry documents).1.closed = [] := by
  intro hAll
  obtain ⟨e, hFails⟩ := exists_error_brokenStream
  have hClosed := (hAll _ _ _ e hFails).2
  have hOne : (plainEngine.readDocuments plainRegistry brokenStream).1.closed.length = 1 := by
    decide +kernel
  rw [hClosed] at hOne
  cases hOne

end Engine

end ItemComposition
