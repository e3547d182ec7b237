import ItemComposition.Provider.Document
import ItemComposition.Proofs.Text.Placeholders
import Mathlib.Data.List.Forall2
import Mathlib.Data.List.TakeWhile

/-!
# Which provider documents are accepted

A document is checked first and then turned into a provider, by steps that could each fail again. What
the check asks for is said here rule by rule, without the order in which the rules are looked at
(`ProviderDocument.InOrder`), and so is what a provider has from its document
(`ProviderDocument.Describes`). After the check no step fails.

## Key results

- `ProviderDocument.fault?_eq_none_iff`: the check passes exactly if all rules hold
- `ProviderDocument.spec_eq_ok_iff`: what a document that passes is turned into
- `ProviderSpec.build_eq_ok_iff`: which documents are accepted, and as which providers
-/

namespace ItemComposition

/-! ## Texts and durations -/

/-- A text has a character that is no white space. -/
def IsStated (s : String) : Prop := ∃ c ∈ s.toList, Text.isBlank c = false

theorem isBlankText_eq_false_iff {s : String} : isBlankText s = false ↔ IsStated s := by
  simp [isBlankText, IsStated]

theorem isBlankText_eq_true_iff {s : String} : isBlankText s = true ↔ ¬ IsStated s := by
  rw [← isBlankText_eq_false_iff, Bool.not_eq_false]

/-- A written duration is there, can be read, and is of so many nanoseconds: more than none, and fewer
than there are numbers of 64 bits. -/
def Lasts (d : Option WrittenDuration) (nanos : Nat) : Prop :=
  ∃ written, d = some written ∧ written.toNanos = .ok (nanos : Int) ∧ 0 < nanos ∧ nanos < Word.size 64

/-- Nothing is left of a blank text without the blanks at its ends. -/
theorem trim_of_not_isStated {s : String} (h : ¬ IsStated s) : Text.trim s = "" := by
  have hAll : ∀ c ∈ s.toList, Text.isBlank c = true := fun c hc => by
    by_contra hNot
    exact h ⟨c, hc, Bool.eq_false_iff.2 hNot⟩
  rw [Text.trim, Text.trimStart, List.dropWhile_eq_nil_iff.2 hAll]
  rfl

theorem positiveNanos_eq_ok_iff {d : Option WrittenDuration} {nanos : Nat} :
    positiveNanos d = .ok nanos ↔ Lasts d nanos := by
  cases d with
  | none => simp [positiveNanos, Lasts]
  | some written =>
    simp only [positiveNanos, Lasts, Option.some.injEq, exists_eq_left']
    cases written.toNanos with
    | error cause => simp
    | ok n =>
      simp only [Except.ok.injEq]
      -- a duration of zero or less is refused, and so is one that no word holds
      split
      · simp only [reduceCtorEq, false_iff]
        omega
      · split
        · rw [Except.ok.injEq]
          omega
        · simp only [reduceCtorEq, false_iff]
          omega

/-! ## Methods -/

/-- Characters that filters may have. -/
def IsFilterChar (c : Char) : Prop :=
  c.isAlphanum = true ∨ Text.isBlank c = true ∨ c ∈ ".()+-*/><=!&|:\"',[]\x7b\x7d_".toList

/-- Characters that mapped paths may have. -/
def IsMappingChar (c : Char) : Prop := c.isAlphanum = true ∨ c ∈ "._[]\"'".toList

/-- A mapping is there; its keys are not blank, and its paths are not empty and have the right
characters. -/
def IsMapping (mapping : Option (Dict String)) : Prop :=
  ∃ entries, mapping = some entries ∧ ∀ e ∈ entries,
    IsStated e.1 ∧ e.2 ≠ "" ∧ ∀ c ∈ e.2.toList, IsMappingChar c

theorem isFilterChar_iff {c : Char} : isFilterChar c = true ↔ IsFilterChar c := by
  simp only [isFilterChar, IsFilterChar, Bool.or_eq_true, List.contains_iff_mem, or_assoc]

theorem isMappingValue_iff {s : String} :
    isMappingValue s = true ↔ s ≠ "" ∧ ∀ c ∈ s.toList, IsMappingChar c := by
  simp only [isMappingValue, isMappingChar, IsMappingChar, Bool.and_eq_true, Bool.or_eq_true,
    decide_eq_true_eq, List.all_eq_true, List.contains_iff_mem]

namespace MethodDocument

/-- The rules for a method. -/
structure InOrder (m : MethodDocument) : Prop where
  package : IsStated m.package
  service : IsStated m.service
  method : IsStated m.method
  kind : IsStated m.kind
  known : Text.trim m.kind ∈ ["Batch", "DomainBatch", "Item"]
  timeout : ∃ nanos, Lasts m.timeout nanos
  filter : ¬ IsStated m.filter ∨ ∀ c ∈ (Text.trim m.filter).toList, IsFilterChar c
  request : IsMapping m.request
  response : IsMapping m.response

/-- The method that is described. -/
structure Describes (m : MethodDocument) (spec : MethodSpec) : Prop where
  package : spec.package = Text.trim m.package
  service : spec.service = Text.trim m.service
  method : spec.method = Text.trim m.method
  kind : spec.kind.name = Text.trim m.kind
  timeout : Lasts m.timeout spec.timeout
  filter : spec.filter = if Text.trim m.filter = "" then none else some (Text.trim m.filter)
  request : m.request = some spec.request
  response : m.response = some spec.response

theorem missingField?_eq_none_iff {m : MethodDocument} : m.missingField? = none ↔
    IsStated m.package ∧ IsStated m.service ∧ IsStated m.method ∧ IsStated m.kind := by
  simp [missingField?, isBlankText_eq_false_iff]

theorem mappingFault?_eq_none_iff {side : MappingSection} {mapping : Option (Dict String)} :
    mappingFault? side mapping = none ↔ IsMapping mapping := by
  cases mapping with
  | none => simp [mappingFault?, IsMapping]
  | some entries =>
    simp only [mappingFault?, entryFault?, List.findSome?_eq_none_iff, IsMapping,
      Option.some.injEq, exists_eq_left', ← isMappingValue_iff, ← isBlankText_eq_false_iff]
    refine forall₂_congr fun e _ => ?_
    cases isBlankText e.1 <;> cases isMappingValue e.2 <;> simp

theorem timeoutFault?_eq_none_iff {d : Option WrittenDuration} :
    timeoutFault? d = none ↔ ∃ nanos, Lasts d nanos := by
  simp only [← positiveNanos_eq_ok_iff, timeoutFault?]
  cases positiveNanos d <;> simp

theorem read?_kind_eq_some_iff {s : String} {kind : MethodKind} :
    MethodKind.read? s = some kind ↔ kind.name = s := by
  unfold MethodKind.read?
  constructor
  · intro h
    simpa using List.find?_some h
  · rintro rfl
    cases kind <;> decide

theorem exists_kind_iff {s : String} :
    (∃ kind, MethodKind.read? s = some kind) ↔ s ∈ ["Batch", "DomainBatch", "Item"] := by
  simp only [read?_kind_eq_some_iff, List.mem_cons, List.not_mem_nil, or_false]
  constructor
  · rintro ⟨kind, rfl⟩
    cases kind <;> simp [MethodKind.name]
  · rintro (rfl | rfl | rfl)
    · exact ⟨.batch, rfl⟩
    · exact ⟨.domainBatch, rfl⟩
    · exact ⟨.item, rfl⟩

/-- A filter that is blank has the right characters. -/
theorem filter_iff {m : MethodDocument} : (Text.trim m.filter).toList.all isFilterChar = true ↔
    ¬ IsStated m.filter ∨ ∀ c ∈ (Text.trim m.filter).toList, IsFilterChar c := by
  simp only [List.all_eq_true, isFilterChar_iff]
  refine ⟨.inr, ?_⟩
  rintro (hBlank | hAll)
  · rw [trim_of_not_isStated hBlank]
    exact nofun
  · exact hAll

/-- A method passes exactly if all rules hold. -/
theorem fault?_eq_none_iff {m : MethodDocument} : m.fault? = none ↔ m.InOrder := by
  constructor
  · -- the checks come one after the other, and each one leaves what it has passed
    intro h
    unfold fault? at h
    split at h
    · cases h
    rename_i hFields
    split at h
    · cases h
    rename_i hKind
    split at h
    · cases h
    rename_i hTimeout
    split at h
    · cases h
    rename_i hFilter
    obtain ⟨hPackage, hService, hMethod, hType⟩ := missingField?_eq_none_iff.1 hFields
    obtain ⟨hRequest, hResponse⟩ := Option.or_eq_none_iff.1 h
    rw [Bool.not_eq_true, Option.isNone_eq_false_iff, Option.isSome_iff_exists] at hKind
    rw [Bool.not_eq_true, Bool.not_eq_false'] at hFilter
    exact ⟨hPackage, hService, hMethod, hType, exists_kind_iff.1 hKind,
      timeoutFault?_eq_none_iff.1 hTimeout, filter_iff.1 hFilter,
      mappingFault?_eq_none_iff.1 hRequest, mappingFault?_eq_none_iff.1 hResponse⟩
  · intro h
    obtain ⟨kind, hKind⟩ := exists_kind_iff.2 h.known
    rw [fault?, missingField?_eq_none_iff.2 ⟨h.package, h.service, h.method, h.kind⟩]
    simp only [hKind, timeoutFault?_eq_none_iff.2 h.timeout, filter_iff.2 h.filter,
      mappingFault?_eq_none_iff.2 h.request, mappingFault?_eq_none_iff.2 h.response]
    rfl

/-- What a method that passes is turned into. -/
theorem spec_eq_ok_iff {m : MethodDocument} (h : m.InOrder) (index : Nat) {spec : MethodSpec} :
    m.spec index = .ok spec ↔ m.Describes spec := by
  obtain ⟨kind, hKind⟩ := exists_kind_iff.2 h.known
  obtain ⟨nanos, hNanos⟩ := h.timeout
  obtain ⟨request, hRequest, -⟩ := h.request
  obtain ⟨response, hResponse, -⟩ := h.response
  -- a filter that is blank is none
  have hFilter : (some (Text.trim m.filter)).filter (· ≠ "") =
      if Text.trim m.filter = "" then none else some (Text.trim m.filter) := by
    by_cases hEmpty : Text.trim m.filter = "" <;> simp [hEmpty]
  rw [MethodDocument.spec, hKind, positiveNanos_eq_ok_iff.2 hNanos]
  simp only [hRequest, hResponse, Option.getD_some, hFilter, Except.ok.injEq]
  constructor
  · rintro rfl
    exact ⟨rfl, rfl, rfl, read?_kind_eq_some_iff.1 hKind, hNanos, rfl, hRequest, hResponse⟩
  · intro hDescribes
    -- what a document describes is unique, and `spec` is one that it describes
    have hName : kind = spec.kind := by
      rw [read?_kind_eq_some_iff.2 hDescribes.kind] at hKind
      exact (Option.some.inj hKind).symm
    have hTimeout : nanos = spec.timeout :=
      Except.ok.inj ((positiveNanos_eq_ok_iff.2 hNanos).symm.trans
        (positiveNanos_eq_ok_iff.2 hDescribes.timeout))
    obtain ⟨_, _, _, _, _, _, _, _⟩ := spec
    simp only [MethodSpec.mk.injEq]
    exact ⟨hDescribes.package.symm, hDescribes.service.symm, hDescribes.method.symm, hName, hTimeout,
      hDescribes.filter.symm, Option.some.inj (hRequest.symm.trans hDescribes.request),
      Option.some.inj (hResponse.symm.trans hDescribes.response)⟩

/-- A method that passes describes one. -/
theorem InOrder.exists_spec {m : MethodDocument} (h : m.InOrder) (index : Nat) :
    ∃ spec, m.spec index = .ok spec := by
  obtain ⟨kind, hKind⟩ := exists_kind_iff.2 h.known
  obtain ⟨nanos, hNanos⟩ := h.timeout
  rw [MethodDocument.spec, hKind, positiveNanos_eq_ok_iff.2 hNanos]
  exact ⟨_, rfl⟩

end MethodDocument

/-! ## Providers -/

/-- The schema that a document names: a source text or a path, unless it is blank. -/
inductive NamesSchema : Option SchemaDocument → Option SchemaSource → Prop
  | absent : NamesSchema none none
  | inline {s : SchemaDocument} {source : String} (given : s.proto = some source)
    (stated : IsStated source) : NamesSchema (some s) (some (.inline source))
  | file {s : SchemaDocument} {path : String} (given : s.protoFile = some path)
    (stated : IsStated path) : NamesSchema (some s) (some (.file path))
  | blank {s : SchemaDocument} (source : ∀ text, s.proto = some text → ¬ IsStated text)
    (path : ∀ text, s.protoFile = some text → ¬ IsStated text) : NamesSchema (some s) none

namespace ProviderDocument

/-- The rules for a provider. -/
structure InOrder (environment : Dict String) (d : ProviderDocument) : Prop where
  version : IsStated d.version
  kind : Text.trim d.kind = "ProviderGRPC"
  name : IsStated d.name
  address : IsStated d.address
  timeout : ∃ nanos, Lasts d.timeout nanos
  headers : ∃ headers, d.headers = some headers ∧ ∀ h ∈ headers, IsStated h.1 ∧
    ∀ name, Placeholder.Mentions h.2.toList name → ∃ value, environment.get? name = some value
  someMethod : d.methods ≠ []
  methods : ∀ m ∈ d.methods, m.InOrder
  oneSchema : ∀ s, d.schema = some s → s.proto = none ∨ s.protoFile = none

/-- The provider that is described: its texts are as they are written, but for the values that stand
in the place of variables. -/
structure Describes (environment : Dict String) (d : ProviderDocument) (spec : ProviderSpec) :
    Prop where
  version : spec.version = d.version
  name : spec.name = d.name
  labels : spec.labels = d.labels
  address : spec.address = d.address
  timeout : Lasts d.timeout spec.timeout
  logging : spec.logging = d.logging
  headers : ∃ headers, d.headers = some headers ∧
    List.Forall₂ (fun h e => e.1 = h.1 ∧ Placeholder.expand environment h.2 = .ok e.2) headers
      spec.headers
  methods : List.Forall₂ MethodDocument.Describes d.methods spec.methods
  schema : NamesSchema d.schema spec.schema

variable {environment : Dict String} {d : ProviderDocument}

theorem unset?_eq_none_iff {value : String} : unset? environment value = none ↔
    ∀ name, Placeholder.Mentions value.toList name →
      ∃ v, environment.get? name = some v := by
  simp [unset?, Placeholder.mem_names_iff, Option.ne_none_iff_exists']

theorem headerFault?_eq_none_iff {headers : Dict String} :
    headerFault? environment headers = none ↔ ∀ h ∈ headers, IsStated h.1 ∧
      ∀ name, Placeholder.Mentions h.2.toList name →
        ∃ value, environment.get? name = some value := by
  simp only [headerFault?, List.findSome?_eq_none_iff, ← unset?_eq_none_iff,
    ← isBlankText_eq_false_iff]
  refine forall₂_congr fun h _ => ?_
  cases isBlankText h.1 <;> simp

theorem methodsFault?_eq_none_iff {ms : List MethodDocument} (index : Nat) :
    methodsFault? index ms = none ↔ ∀ m ∈ ms, m.InOrder := by
  induction ms generalizing index with
  | nil => simp [methodsFault?]
  | cons m ms ih =>
    rw [methodsFault?, List.forall_mem_cons, ← MethodDocument.fault?_eq_none_iff,
      ← ih (index + 1)]
    cases m.fault? <;> simp

theorem hasTwoSchemas_eq_false_iff : d.hasTwoSchemas = false ↔
    ∀ s, d.schema = some s → s.proto = none ∨ s.protoFile = none := by
  unfold hasTwoSchemas
  cases d.schema with
  | none => simp
  | some s => cases hProto : s.proto <;> cases hFile : s.protoFile <;> simp [hProto, hFile]

/-- A document passes exactly if all rules hold. -/
theorem fault?_eq_none_iff : d.fault? environment = none ↔ d.InOrder environment := by
  constructor
  · -- the checks come one after the other: no fault means that all of them were passed
    intro h
    unfold fault? at h
    split at h
    · cases h
    rename_i hVersion
    split at h
    · cases h
    rename_i hKind
    split at h
    · cases h
    rename_i hName
    split at h
    · cases h
    rename_i hAddress
    split at h
    · cases h
    rename_i hTimeout
    split at h
    · cases h
    rename_i headers hHeaders
    split at h
    · cases h
    rename_i hFine
    split at h
    · cases h
    rename_i hSome
    split at h
    · cases h
    rename_i hMethods
    split at h
    · cases h
    rename_i hSchema
    rw [isBlankText_eq_true_iff, not_not] at hVersion hName hAddress
    rw [not_not] at hKind
    rw [Bool.not_eq_true] at hSchema
    exact ⟨hVersion, hKind, hName, hAddress,
      MethodDocument.timeoutFault?_eq_none_iff.1 hTimeout,
      ⟨headers, hHeaders, headerFault?_eq_none_iff.1 hFine⟩,
      by simpa using hSome, (methodsFault?_eq_none_iff 0).1 hMethods,
      hasTwoSchemas_eq_false_iff.1 hSchema⟩
  · intro h
    obtain ⟨headers, hHeaders, hFine⟩ := h.headers
    have hSome : d.methods.isEmpty = false := by simpa using h.someMethod
    rw [fault?, isBlankText_eq_false_iff.2 h.version, isBlankText_eq_false_iff.2 h.name,
      isBlankText_eq_false_iff.2 h.address, MethodDocument.timeoutFault?_eq_none_iff.2 h.timeout,
      if_neg Bool.false_ne_true, if_neg (fun hKind => hKind h.kind), if_neg Bool.false_ne_true,
      if_neg Bool.false_ne_true]
    simp only [hHeaders, headerFault?_eq_none_iff.2 hFine, hSome, Bool.false_eq_true, if_false,
      (methodsFault?_eq_none_iff 0).2 h.methods, hasTwoSchemas_eq_false_iff.2 h.oneSchema]

/-! ## What follows the check -/

theorem expandHeaders_eq_ok_iff {headers expanded : Dict String} :
    expandHeaders environment headers = .ok expanded ↔
      List.Forall₂ (fun h e => e.1 = h.1 ∧ Placeholder.expand environment h.2 = .ok e.2) headers
        expanded := by
  induction headers generalizing expanded with
  | nil => simp [expandHeaders, eq_comm]
  | cons h rest ih =>
    obtain ⟨key, value⟩ := h
    rw [expandHeaders, List.forall₂_cons_left_iff]
    simp only [← ih]
    -- an unknown placeholder in one header makes the whole fail
    cases hValue : Placeholder.expand environment value with
    | error name => simp
    | ok text =>
      cases expandHeaders environment rest with
      | error fault => simp
      | ok others =>
        simp only [Except.ok.injEq]
        constructor
        · rintro rfl
          exact ⟨(key, text), others, ⟨rfl, rfl⟩, rfl, rfl⟩
        · rintro ⟨_, _, ⟨rfl, rfl⟩, rfl, rfl⟩
          rfl

theorem exists_expandHeaders {headers : Dict String}
    (h : ∀ e ∈ headers, ∃ s, Placeholder.expand environment e.2 = .ok s) :
    ∃ expanded, expandHeaders environment headers = .ok expanded := by
  induction headers with
  | nil => exact ⟨[], rfl⟩
  | cons e rest ih =>
    obtain ⟨hFirst, hRest⟩ := List.forall_mem_cons.1 h
    obtain ⟨text, hText⟩ := hFirst
    obtain ⟨others, hOthers⟩ := ih hRest
    exact ⟨(e.1, text) :: others, by simp only [expandHeaders, hText, hOthers]⟩

theorem methodSpecs_eq_ok_iff {ms : List MethodDocument} (h : ∀ m ∈ ms, m.InOrder) (index : Nat)
    {specs : List MethodSpec} :
    methodSpecs index ms = .ok specs ↔ List.Forall₂ MethodDocument.Describes ms specs := by
  induction ms generalizing index specs with
  | nil => simp [methodSpecs, eq_comm]
  | cons m rest ih =>
    obtain ⟨hFirst, hRest⟩ := List.forall_mem_cons.1 h
    rw [methodSpecs, List.forall₂_cons_left_iff]
    simp only [← MethodDocument.spec_eq_ok_iff hFirst index, ← ih hRest (index + 1)]
    cases m.spec index with
    | error fault => simp [bind, Except.bind]
    | ok spec =>
      cases methodSpecs (index + 1) rest with
      | error fault => simp [bind, Except.bind]
      | ok others => simp [bind, Except.bind, pure, Except.pure, eq_comm]

theorem exists_methodSpecs {ms : List MethodDocument} (h : ∀ m ∈ ms, m.InOrder) (index : Nat) :
    ∃ specs, methodSpecs index ms = .ok specs := by
  induction ms generalizing index with
  | nil => exact ⟨[], rfl⟩
  | cons m rest ih =>
    obtain ⟨hFirst, hRest⟩ := List.forall_mem_cons.1 h
    obtain ⟨spec, hSpec⟩ := hFirst.exists_spec index
    obtain ⟨others, hOthers⟩ := ih hRest (index + 1)
    exact ⟨spec :: others, by rw [methodSpecs, hSpec, hOthers]; rfl⟩

theorem filter_isStated {text : Option String} {s : String} :
    text.filter (!isBlankText ·) = some s ↔ text = some s ∧ IsStated s := by
  rw [Option.filter_eq_some_iff, Bool.not_eq_true', isBlankText_eq_false_iff]

theorem filter_isStated_eq_none {text : Option String} :
    text.filter (!isBlankText ·) = none ↔ ∀ s, text = some s → ¬ IsStated s := by
  simp only [Option.filter_eq_none_iff, Bool.not_eq_true', isBlankText_eq_false_iff]

theorem source?_eq_iff {schema : Option SchemaDocument} {source : Option SchemaSource}
    (one : ∀ s, schema = some s → s.proto = none ∨ s.protoFile = none) :
    schema.bind SchemaDocument.source? = source ↔ NamesSchema schema source := by
  cases schema with
  | none =>
    refine ⟨?_, fun h => by cases h; rfl⟩
    rintro rfl
    exact .absent
  | some s =>
    rw [Option.bind_some, SchemaDocument.source?]
    constructor
    · rintro rfl
      split
      · rename_i text _ hText
        obtain ⟨hGiven, hStated⟩ := filter_isStated.1 hText
        exact .inline hGiven hStated
      · rename_i path _ hPath
        obtain ⟨hGiven, hStated⟩ := filter_isStated.1 hPath
        exact .file hGiven hStated
      · rename_i hSource hPath
        exact .blank (filter_isStated_eq_none.1 hSource) (filter_isStated_eq_none.1 hPath)
    · intro h
      cases h with
      | inline given stated => rw [filter_isStated.2 ⟨given, stated⟩]
      | file given stated =>
        -- a path is used only where no source text is given
        have hNone : s.proto = none := (one s rfl).resolve_right fun h => by rw [given] at h; cases h
        rw [hNone, filter_isStated.2 ⟨given, stated⟩]
        rfl
      | blank source path =>
        rw [filter_isStated_eq_none.2 source, filter_isStated_eq_none.2 path]

/-- No step after the check fails. -/
theorem InOrder.exists_spec (h : d.InOrder environment) : ∃ nanos headers expanded specs,
    positiveNanos d.timeout = .ok nanos ∧ d.headers = some headers ∧
      expandHeaders environment headers = .ok expanded ∧ methodSpecs 0 d.methods = .ok specs ∧
      d.spec environment = .ok ⟨d.version, d.name, d.labels, d.address, nanos, d.logging, expanded,
        specs, d.schema.bind SchemaDocument.source?⟩ := by
  obtain ⟨nanos, hNanos⟩ := h.timeout
  obtain ⟨headers, hHeaders, hFine⟩ := h.headers
  obtain ⟨expanded, hExpanded⟩ :=
    exists_expandHeaders fun e he => Placeholder.exists_expand_iff.2 (hFine e he).2
  obtain ⟨specs, hSpecs⟩ := exists_methodSpecs h.methods 0
  refine ⟨nanos, headers, expanded, specs, positiveNanos_eq_ok_iff.2 hNanos, hHeaders, hExpanded,
    hSpecs, ?_⟩
  rw [ProviderDocument.spec, positiveNanos_eq_ok_iff.2 hNanos, hHeaders, Option.getD_some, hExpanded,
    hSpecs]
  rfl

/-- What a document that passes is turned into. -/
theorem spec_eq_ok_iff (h : d.InOrder environment) {spec : ProviderSpec} :
    d.spec environment = .ok spec ↔ d.Describes environment spec := by
  obtain ⟨nanos, headers, expanded, specs, hNanos, hHeaders, hExpanded, hSpecs, hSpec⟩ :=
    h.exists_spec
  rw [hSpec, Except.ok.injEq]
  constructor
  · rintro rfl
    exact ⟨rfl, rfl, rfl, rfl, positiveNanos_eq_ok_iff.1 hNanos, rfl,
      ⟨headers, hHeaders, expandHeaders_eq_ok_iff.1 hExpanded⟩,
      (methodSpecs_eq_ok_iff h.methods 0).1 hSpecs, (source?_eq_iff h.oneSchema).1 rfl⟩
  · intro hDescribes
    -- the headers of the document are those that were read, so their texts are the same too
    obtain ⟨headers', hHeaders', hSame⟩ := hDescribes.headers
    obtain rfl := Option.some.inj (hHeaders.symm.trans hHeaders')
    have hNanos' := hNanos.symm.trans (positiveNanos_eq_ok_iff.2 hDescribes.timeout)
    have hExpanded' := hExpanded.symm.trans (expandHeaders_eq_ok_iff.2 hSame)
    have hSpecs' := hSpecs.symm.trans ((methodSpecs_eq_ok_iff h.methods 0).2 hDescribes.methods)
    obtain ⟨_, _, _, _, _, _, _, _, _⟩ := spec
    simp only [ProviderSpec.mk.injEq]
    exact ⟨hDescribes.version.symm, hDescribes.name.symm, hDescribes.labels.symm,
      hDescribes.address.symm, Except.ok.inj hNanos', hDescribes.logging.symm,
      Except.ok.inj hExpanded', Except.ok.inj hSpecs',
      (source?_eq_iff h.oneSchema).2 hDescribes.schema⟩

end ProviderDocument

namespace ProviderSpec

/-- After the check only what was checked is taken. -/
theorem build_eq (environment : Dict String) (d : ProviderDocument) {spec : ProviderSpec} :
    build environment d = .ok spec ↔
      d.fault? environment = none ∧ d.spec environment = .ok spec := by
  unfold build
  cases d.fault? environment with
  | some fault => simp
  | none => cases d.spec environment <;> simp [Except.mapError]

/-- Building succeeds exactly if the check passes, so that no step after the check fails; the check
passes exactly if all rules hold; and what is built is the provider that the document describes. -/
theorem build_eq_ok_iff (environment : Dict String) (d : ProviderDocument) :
    ((∃ spec, build environment d = .ok spec) ↔ d.fault? environment = none) ∧
      (d.fault? environment = none ↔ d.InOrder environment) ∧
      ∀ spec, build environment d = .ok spec ↔
        d.InOrder environment ∧ d.Describes environment spec := by
  refine ⟨⟨?_, fun hPasses => ?_⟩, ProviderDocument.fault?_eq_none_iff, fun spec => ?_⟩
  · rintro ⟨spec, hSpec⟩
    exact ((build_eq environment d).1 hSpec).1
  · obtain ⟨_, _, _, _, -, -, -, -, hSpec⟩ :=
      (ProviderDocument.fault?_eq_none_iff.1 hPasses).exists_spec
    exact ⟨_, (build_eq environment d).2 ⟨hPasses, hSpec⟩⟩
  · rw [build_eq, ProviderDocument.fault?_eq_none_iff]
    exact and_congr_right fun hOrder => ProviderDocument.spec_eq_ok_iff hOrder

end ProviderSpec

end ItemComposition
