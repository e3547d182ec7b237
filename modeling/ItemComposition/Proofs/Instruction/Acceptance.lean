import ItemComposition.Instruction.Reader
import Mathlib.Tactic.Tauto

/-!
# Documents that are instructions

An instruction is written as a mapping with a kind, a version, metadata and a specification. A
sequence of these four parts in order is taken for such a mapping too, and its last parts may be
left out.

## Key results

- `ofDocument_arr`: a sequence is read as the mapping of its items
- `exists_ofDocument_iff`: which documents are taken
- `accepts_iff`: when mappings alone are
-/

namespace ItemComposition.Instruction

/-! ## Parts -/

/-- What the four parts of an instruction hold. -/
structure Parts (kind version metadata spec : Option Json) : Prop where
  kind : ∃ text, kind = some (.str text) ∧ (Text.trim text = "View" ∨ Text.trim text = "Template")
  version : version = none ∨ ∃ text, version = some (.str text)
  metadata : metadata = none ∨ metadata = some .null ∨ ∃ members, metadata = some (.obj members)
  spec : spec = none ∨ spec = some .null ∨ ∃ members, spec = some (.obj members)

/-- A mapping with the parts of an instruction. -/
def IsMapping (document : Json) : Prop :=
  ∃ members : Dict Json, document = .obj members ∧
    Parts (members.get? "kind") (members.get? "version") (members.get? "metadata")
      (members.get? "spec")

/-- A sequence of the parts of an instruction, in order and as many as there are. -/
def IsSequence (document : Json) : Prop :=
  ∃ items : List Json, document = .arr items ∧ items.length ≤ 4 ∧
    Parts items[0]? items[1]? items[2]? items[3]?

variable {document : Json} {part : Option Json}

theorem exists_optionalText_iff :
    (∃ text, optionalText part = .ok text) ↔ part = none ∨ ∃ text, part = some (.str text) := by
  rcases part with _ | (_ | _ | _ | text | _ | _) <;> simp [optionalText]

theorem exists_optionalObject_iff : (∃ members, optionalObject part = .ok members) ↔
    part = none ∨ part = some .null ∨ ∃ members, part = some (.obj members) := by
  rcases part with _ | (_ | _ | _ | _ | _ | members) <;> simp [optionalObject]

theorem exists_read_iff {text : String} : (∃ kind, Kind.read text = .ok kind) ↔
    Text.trim text = "View" ∨ Text.trim text = "Template" := by
  have hView : Kind.view.name = "View" := rfl
  have hTemplate : Kind.template.name = "Template" := rfl
  rw [Kind.read, hView, hTemplate]
  split
  · simp_all
  · split <;> simp_all

/-- The kind has to be there: the empty text is none of the two. -/
theorem exists_read_optionalText_iff :
    (∃ text, optionalText part = .ok text ∧ ∃ kind, Kind.read text = .ok kind) ↔
      ∃ text, part = some (.str text) ∧ (Text.trim text = "View" ∨ Text.trim text = "Template") := by
  rcases part with _ | (_ | _ | _ | text | _ | _) <;> simp [optionalText, exists_read_iff]
  decide

/-- The parts are as they have to be if each of them can be read, the kind as one of the two. -/
theorem parts_iff {kind version metadata spec : Option Json} :
    Parts kind version metadata spec ↔
      (∃ text, optionalText kind = .ok text ∧ ∃ k, Kind.read text = .ok k) ∧
        (∃ text, optionalText version = .ok text) ∧
        (∃ members, optionalObject metadata = .ok members) ∧
        ∃ members, optionalObject spec = .ok members := by
  rw [exists_read_optionalText_iff, exists_optionalText_iff, exists_optionalObject_iff,
    exists_optionalObject_iff]
  exact ⟨fun h => ⟨h.kind, h.version, h.metadata, h.spec⟩, fun ⟨k, v, m, s⟩ => ⟨k, v, m, s⟩⟩

/-! ## Documents -/

theorem bind_eq_ok_iff {α β : Type} {x : Except DocumentError α}
    {next : α → Except DocumentError β} {b : β} :
    (x >>= next) = .ok b ↔ ∃ a, x = .ok a ∧ next a = .ok b := by
  cases x <;> simp [bind, Except.bind]

/-- The outer parts are read one after the other, and then the kind. -/
theorem exists_envelope_iff {kind version metadata spec : Option Json} :
    (∃ e : Envelope, (do
        let kind ← optionalText kind
        let version ← optionalText version
        let metadata ← optionalObject metadata
        let spec ← optionalObject spec
        return Envelope.mk kind version metadata spec) = .ok e ∧ ∃ k, Kind.read e.kind = .ok k) ↔
      Parts kind version metadata spec := by
  simp only [bind_eq_ok_iff, parts_iff]
  constructor
  · rintro ⟨e, ⟨k, hKind, v, hVersion, m, hMetadata, s, hSpec, hEnvelope⟩, hRead⟩
    cases hEnvelope
    -- each of the four is read on its own, so all of them are as they should be
    exact ⟨⟨k, hKind, hRead⟩, ⟨v, hVersion⟩, ⟨m, hMetadata⟩, ⟨s, hSpec⟩⟩
  · rintro ⟨⟨k, hKind, hRead⟩, ⟨v, hVersion⟩, ⟨m, hMetadata⟩, ⟨s, hSpec⟩⟩
    exact ⟨⟨k, v, m, s⟩, ⟨k, hKind, v, hVersion, m, hMetadata, s, hSpec, rfl⟩, hRead⟩

/-- An instruction is made if the parts can be read and the kind is one of the two. -/
theorem exists_ofDocument_iff_read : (∃ i, ofDocument document = .ok i) ↔
    ∃ e, Envelope.read document = .ok e ∧ ∃ kind, Kind.read e.kind = .ok kind := by
  simp only [ofDocument, bind_eq_ok_iff, pure, Except.pure, Except.ok.injEq]
  constructor
  · rintro ⟨i, e, hRead, kind, hKind, -⟩
    exact ⟨e, hRead, kind, hKind⟩
  · rintro ⟨e, hRead, kind, hKind⟩
    exact ⟨_, e, hRead, kind, hKind, rfl⟩

theorem exists_ofDocument_obj (members : Dict Json) :
    (∃ i, ofDocument (.obj members) = .ok i) ↔
      Parts (members.get? "kind") (members.get? "version") (members.get? "metadata")
        (members.get? "spec") :=
  exists_ofDocument_iff_read.trans exists_envelope_iff

theorem exists_ofDocument_arr (items : List Json) :
    (∃ i, ofDocument (.arr items) = .ok i) ↔
      items.length ≤ 4 ∧ Parts items[0]? items[1]? items[2]? items[3]? := by
  rw [exists_ofDocument_iff_read, Envelope.read]
  split
  · next hMany => simp [Nat.not_le.2 hMany]
  · next hFew =>
    rw [exists_envelope_iff]
    exact (and_iff_right (Nat.not_lt.1 hFew)).symm

/-- Mappings and sequences of the right parts are taken, and nothing else. -/
theorem exists_ofDocument_iff :
    (∃ i, ofDocument document = .ok i) ↔ IsMapping document ∨ IsSequence document := by
  cases document with
  | obj members => simp [exists_ofDocument_obj, IsMapping, IsSequence]
  | arr items => simp [exists_ofDocument_arr, IsMapping, IsSequence]
  | _ => simp [exists_ofDocument_iff_read, Envelope.read, IsMapping, IsSequence]

/-- The mapping that a sequence of parts is taken for. -/
def mappingOf (items : List Json) : Json :=
  Json.object (["kind", "version", "metadata", "spec"].zip items)

/-- Under each of the four names there is the item in its place. -/
theorem get?_mappingOf {items : List Json} (h : items.length ≤ 4) :
    (mappingOf items).get? "kind" = items[0]? ∧ (mappingOf items).get? "version" = items[1]? ∧
      (mappingOf items).get? "metadata" = items[2]? ∧ (mappingOf items).get? "spec" = items[3]? := by
  match items with
  | [] => simp [mappingOf, Json.object, Json.get?, Dict.ofList]
  | [kind] => simp [mappingOf, Json.object, Json.get?, Dict.ofList, Dict.get?_insert_of_ne]
  | [kind, version] => simp [mappingOf, Json.object, Json.get?, Dict.ofList, Dict.get?_insert_of_ne]
  | [kind, version, metadata] =>
    simp [mappingOf, Json.object, Json.get?, Dict.ofList, Dict.get?_insert_of_ne]
  | [kind, version, metadata, spec] =>
    simp [mappingOf, Json.object, Json.get?, Dict.ofList, Dict.get?_insert_of_ne]
  | _ :: _ :: _ :: _ :: _ :: _ =>
    simp only [List.length_cons] at h
    omega

theorem ofDocument_arr {items : List Json} (h : items.length ≤ 4) :
    ofDocument (.arr items) = ofDocument (mappingOf items) := by
  have hRead : Envelope.read (.arr items) = Envelope.read (mappingOf items) := by
    obtain ⟨hKind, hVersion, hMetadata, hSpec⟩ := get?_mappingOf h
    have hFew : ¬4 < items.length := Nat.not_lt.2 h
    simp only [Envelope.read, hFew, if_false, ← hKind, ← hVersion, ← hMetadata, ← hSpec]
    rfl
  rw [ofDocument, ofDocument, hRead]

/-- A document is taken if it is a mapping with the parts of an instruction, or a sequence of them,
which is read as the mapping of its items. So mappings alone are taken, and what is no mapping is
not, exactly as long as the document is no such sequence. -/
theorem accepts_iff (document : Json) :
    ((∃ i, ofDocument document = .ok i) ↔ IsMapping document ∨ IsSequence document) ∧
      (((∃ i, ofDocument document = .ok i) ↔ IsMapping document) ↔ ¬IsSequence document) ∧
      ∀ items, document = .arr items → items.length ≤ 4 →
        ofDocument document = ofDocument (mappingOf items) := by
  have hNot : IsSequence document → ¬IsMapping document := by
    rintro ⟨items, rfl, -⟩ ⟨members, hMembers, -⟩
    exact nomatch hMembers
  refine ⟨exists_ofDocument_iff, ?_, ?_⟩
  · rw [exists_ofDocument_iff]
    tauto
  · rintro items rfl hFew
    exact ofDocument_arr hFew

/-- The kind alone, as the one item of a sequence, makes an instruction. -/
theorem not_accepts_mappings_only :
    (∃ i, ofDocument (.arr [.str "View"]) = .ok i) ∧ ¬IsMapping (.arr [.str "View"]) := by
  refine ⟨⟨_, rfl⟩, ?_⟩
  rintro ⟨members, hMembers, -⟩
  exact nomatch hMembers

end ItemComposition.Instruction
