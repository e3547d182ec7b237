import ItemComposition.Provider.Call
import ItemComposition.Proofs.DistinctKeys
import ItemComposition.Proofs.RelatedDictionaries

/-!
# The methods of a provider and their schemas

Of several methods of one name only the last can be called. `Provider.resolveAll` finds the schemas
of just these methods; `Provider.Resolved` says what it then has found.

## Key results

- `CompiledMethod.last?_cons`: the last method of a name, by recursion on the methods
- `Provider.resolved_of_resolveAll`: what is found
- `Provider.exists_of_resolveAll_eq_error`: why nothing is found
- `Provider.exists_resolveAll_iff`: schemas are found iff each method that can be called has one
- `Provider.make_eq_ok_iff`: how a provider is made
-/

namespace ItemComposition

namespace CompiledMethod

variable {ms : List CompiledMethod} {m : CompiledMethod} {name : String}

/-- The last method of a name. -/
def last? (ms : List CompiledMethod) (name : String) : Option CompiledMethod :=
  ms.reverse.find? fun m => m.spec.method = name

theorem last?_cons (m : CompiledMethod) (ms : List CompiledMethod) (name : String) :
    last? (m :: ms) name = (last? ms name).or (if m.spec.method = name then some m else none) := by
  rw [last?, List.reverse_cons, List.find?_append, List.find?_singleton, ← last?]
  simp only [decide_eq_true_eq]

theorem method_of_last? (h : last? ms name = some m) : m.spec.method = name := by
  rw [last?] at h
  simpa using List.find?_some h

theorem last?_eq_none_iff : last? ms name = none ↔ ∀ m ∈ ms, m.spec.method ≠ name := by
  rw [last?, List.find?_eq_none]
  simp only [List.mem_reverse, decide_eq_true_eq, ne_eq]

/-- A method is the last of its name unless another one follows. -/
theorem last?_cons_of_any (h : (ms.any fun later => later.spec.method = m.spec.method) = true)
    (name : String) : last? (m :: ms) name = last? ms name := by
  rw [last?_cons]
  split
  · rename_i hName
    subst hName
    obtain ⟨later, hMem, hSame⟩ := List.any_eq_true.1 h
    cases hLast : last? ms m.spec.method with
    | none => exact absurd (of_decide_eq_true hSame) (last?_eq_none_iff.1 hLast later hMem)
    | some last => rfl
  · exact Option.or_none

theorem last?_eq_none_of_not_any
    (h : ¬(ms.any fun later => later.spec.method = m.spec.method) = true) :
    last? ms m.spec.method = none := by
  rw [last?_eq_none_iff]
  intro later hLater hName
  exact h (List.any_eq_true.2 ⟨later, hLater, decide_eq_true hName⟩)

theorem last?_cons_self (h : last? ms m.spec.method = none) :
    last? (m :: ms) m.spec.method = some m := by
  rw [last?_cons, h, if_pos rfl, Option.none_or]

end CompiledMethod

namespace Provider

open CompiledMethod

variable {ε φ : Type} {resolve : MethodSpec → Except φ MethodSchema} {ms : List CompiledMethod}
variable {found : List (String × MethodSchema)} {m : CompiledMethod} {name : String}

/-- A resolver finds the schema of each method that can be called. -/
def ResolvesAll (resolve : MethodSpec → Except φ MethodSchema) (ms : List CompiledMethod) : Prop :=
  ∀ name m, last? ms name = some m → ∃ schema, resolve m.spec = .ok schema

/-- The schemas of all methods that can be called, each once. -/
structure Resolved (resolve : MethodSpec → Except φ MethodSchema) (ms : List CompiledMethod)
    (found : List (String × MethodSchema)) : Prop where
  nodup : (found.map Prod.fst).Nodup
  mem_iff : ∀ name schema, (name, schema) ∈ found ↔
    ∃ m, last? ms name = some m ∧ resolve m.spec = .ok schema
  all : ResolvesAll resolve ms

theorem Resolved.cons {schema : MethodSchema} (h : Resolved resolve ms found)
    (hFirst : resolve m.spec = .ok schema) (hNone : last? ms m.spec.method = none) :
    Resolved resolve (m :: ms) ((m.spec.method, schema) :: found) := by
  have hSelf : last? (m :: ms) m.spec.method = some m := last?_cons_self hNone
  have hOther : ∀ name, m.spec.method ≠ name → last? (m :: ms) name = last? ms name := by
    intro name hName
    rw [last?_cons, if_neg hName, Option.or_none]
  refine ⟨?_, fun name found => ?_, fun name other hOther' => ?_⟩
  · -- what is found already belongs to methods of other names
    rw [List.map_cons, List.nodup_cons]
    refine ⟨fun hMem => ?_, h.nodup⟩
    obtain ⟨⟨key, later⟩, hLater, hKey⟩ := List.mem_map.1 hMem
    obtain ⟨other, hOther, -⟩ := (h.mem_iff key later).1 hLater
    rw [show key = m.spec.method from hKey, hNone] at hOther
    cases hOther
  · rw [List.mem_cons, h.mem_iff, Prod.mk.injEq]
    by_cases hName : m.spec.method = name
    · subst hName
      rw [hNone, hSelf]
      simp [hFirst, eq_comm]
    · rw [hOther name hName]
      simp [Ne.symm hName]
  · by_cases hName : m.spec.method = name
    · subst hName
      obtain rfl := Option.some.inj (hSelf.symm.trans hOther')
      exact ⟨schema, hFirst⟩
    · exact h.all name other (hOther name hName ▸ hOther')

theorem resolved_of_resolveAll (h : resolveAll resolve ms = .ok found) :
    Resolved resolve ms found := by
  induction ms generalizing found with
  | nil =>
    cases h
    exact ⟨List.nodup_nil, fun name schema => by simp [last?], nofun⟩
  | cons m ms ih =>
    rw [resolveAll] at h
    split at h
    · -- a method of the same name follows, so this one is never called
      rename_i hAny
      have hSame := last?_cons_of_any hAny
      obtain ⟨hNodup, hMem, hAll⟩ := ih h
      refine ⟨hNodup, fun name schema => ?_, fun name other hOther => ?_⟩
      · rw [hSame, hMem]
      · exact hAll name other (hSame name ▸ hOther)
    · rename_i hAny
      cases hFirst : resolve m.spec with
      | error fault => simp [hFirst] at h
      | ok schema =>
        cases hRest : resolveAll resolve ms with
        | error fault => simp [hFirst, hRest] at h
        | ok others =>
          simp only [hFirst, hRest, Except.ok.injEq] at h
          subst h
          exact (ih hRest).cons hFirst (last?_eq_none_of_not_any hAny)

/-- No schemas are found because one method that can be called has none. -/
theorem exists_of_resolveAll_eq_error {fault : φ} (h : resolveAll resolve ms = .error fault) :
    ∃ name m, last? ms name = some m ∧ resolve m.spec = .error fault := by
  induction ms with
  | nil => cases h
  | cons m ms ih =>
    have hRest : resolveAll resolve ms = .error fault →
        ∃ name last, last? (m :: ms) name = some last ∧ resolve last.spec = .error fault := by
      intro hRest
      obtain ⟨name, last, hLast, hFault⟩ := ih hRest
      exact ⟨name, last, by rw [last?_cons, hLast, Option.some_or], hFault⟩
    rw [resolveAll] at h
    -- a method with a later one of its name is passed over
    split at h
    · exact hRest h
    · rename_i hAny
      cases hFirst : resolve m.spec with
      | ok schema =>
        cases hOthers : resolveAll resolve ms with
        | ok others => simp [hFirst, hOthers] at h
        | error later =>
          simp only [hFirst, hOthers, Except.error.injEq] at h
          exact hRest (h ▸ hOthers)
      | error first =>
        simp only [hFirst, Except.error.injEq] at h
        exact ⟨m.spec.method, m, last?_cons_self (last?_eq_none_of_not_any hAny), h ▸ hFirst⟩

/-- Schemas are found exactly if each method that can be called has one. -/
theorem exists_resolveAll_iff :
    (∃ found, resolveAll resolve ms = .ok found) ↔ ResolvesAll resolve ms := by
  constructor
  · rintro ⟨found, h⟩
    exact (resolved_of_resolveAll h).all
  · intro h
    cases hAll : resolveAll resolve ms with
    | ok found => exact ⟨found, rfl⟩
    | error fault =>
      obtain ⟨name, m, hLast, hFault⟩ := exists_of_resolveAll_eq_error hAll
      obtain ⟨schema, hSchema⟩ := h name m hLast
      rw [hFault] at hSchema
      cases hSchema

/-- A resolver with other faults finds the same schemas. -/
theorem resolveAll_mapError {ψ : Type} (f : φ → ψ) (ms : List CompiledMethod) :
    resolveAll (fun m => (resolve m).mapError f) ms = (resolveAll resolve ms).mapError f := by
  induction ms with
  | nil => rfl
  | cons m ms ih =>
    rw [resolveAll, resolveAll]
    split
    · exact ih
    · cases resolve m.spec with
      | error fault => rfl
      | ok schema =>
        rw [ih]
        cases resolveAll resolve ms <;> rfl

/-! ## Look-ups of what is found -/

theorem Resolved.get?_ofList {schema : MethodSchema} (h : Resolved resolve ms found)
    (hLast : last? ms name = some m) (hSchema : resolve m.spec = .ok schema) :
    Dict.get? (Dict.ofList found) name = some schema := by
  have hMem : (name, schema) ∈ found := (h.mem_iff name schema).2 ⟨m, hLast, hSchema⟩
  have hOnce : found.Pairwise fun e e' => e.1 = e'.1 → e.1 ≠ name :=
    (List.pairwise_map.1 h.nodup).imp fun hNe hSame => absurd hSame hNe
  rw [Dict.get?_ofList_of_once hOnce, Cache.find?_key_of_mem h.nodup hMem, Option.map_some]

theorem Resolved.find?_reverse {schema : MethodSchema} (h : Resolved resolve ms found)
    (hLast : last? ms name = some m) (hSchema : resolve m.spec = .ok schema) :
    found.reverse.find? (fun s => s.1 = name) = some (name, schema) := by
  have hMem : (name, schema) ∈ found := (h.mem_iff name schema).2 ⟨m, hLast, hSchema⟩
  have hNodup : (found.reverse.map Prod.fst).Nodup := by
    rw [List.map_reverse, List.nodup_reverse]
    exact h.nodup
  exact Cache.find?_key_of_mem hNodup (List.mem_reverse.2 hMem)

/-- A provider has the schemas of its methods from what was found for them. -/
theorem Resolved.schemaOf {p : Provider ε} {schema : MethodSchema}
    (h : Resolved resolve p.methods found) (hFound : p.schemas = some found)
    (hMethod : p.compiled? name = some m) (hSchema : resolve m.spec = .ok schema) :
    p.schemaOf m = .ok schema := by
  have hName : m.spec.method = name := method_of_last? hMethod
  rw [Provider.schemaOf, hFound, Option.bind_some, hName, h.find?_reverse hMethod hSchema,
    Option.map_some]

theorem schemaOf_of_not_attached {p : Provider ε} (h : p.schemas = none) (m : CompiledMethod) :
    p.schemaOf m = .error (.schema (.absent p.name)) := by
  rw [schemaOf, h]
  rfl

end Provider

/-! ## How a provider is made -/

/-- The schema that a description names, if it names one. -/
def ProviderSpec.namedSchema? (openFile : String → Option Proto.Bytes) (spec : ProviderSpec) :
    Option (Except SchemaFault Schema) :=
  spec.schema.map fun
    | .inline source => Schema.ofSource (spec.name ++ ".proto") source
    | .file path => Schema.ofFile openFile path

namespace CompiledMethod

/-- The texts of a method are parsed, its description stays as it is. -/
def Compiles (m : MethodSpec) (c : CompiledMethod) : Prop := compile m = .ok c

theorem Compiles.spec_eq {m : MethodSpec} {c : CompiledMethod} (h : Compiles m c) : c.spec = m := by
  rw [Compiles, compile] at h
  cases hFilter : compileFilter m.method m.filter with
  | error fault => simp [hFilter, bind, Except.bind] at h
  | ok filter =>
    cases hRequest : compileRequest m.method m.request with
    | error fault => simp [hFilter, hRequest, bind, Except.bind] at h
    | ok request =>
      simp only [hFilter, hRequest, bind, Except.bind, pure, Except.pure, Except.ok.injEq] at h
      exact h ▸ rfl

theorem mapM_compile_eq_ok_iff {specs : List MethodSpec} {methods : List CompiledMethod} :
    specs.mapM compile = .ok methods ↔ List.Forall₂ Compiles specs methods := by
  induction specs generalizing methods with
  | nil => simp [pure, Except.pure, eq_comm]
  | cons m specs ih =>
    rw [List.mapM_cons, List.forall₂_cons_left_iff]
    -- one method after the other; the first that does not compile ends it
    constructor
    · intro h
      cases hFirst : compile m with
      | error fault => simp [hFirst, bind, Except.bind] at h
      | ok c =>
        cases hRest : specs.mapM compile with
        | error fault => simp [hFirst, hRest, bind, Except.bind] at h
        | ok rest =>
          simp only [hFirst, hRest, bind, Except.bind, pure, Except.pure, Except.ok.injEq] at h
          exact ⟨c, rest, hFirst, ih.1 hRest, h.symm⟩
    · rintro ⟨c, rest, hFirst, hRest, rfl⟩
      rw [Compiles] at hFirst
      simp only [hFirst, ih.2 hRest, bind, Except.bind, pure, Except.pure]

end CompiledMethod

namespace Provider

variable {ε : Type} {openFile : String → Option Proto.Bytes} {retry : RetryPolicy} {endpoint : ε}
variable {spec : ProviderSpec} {p : Provider ε}

/-- What a provider starts with: a schema is attached iff the description names one. -/
inductive MadeOf (openFile : String → Option Proto.Bytes) (spec : ProviderSpec)
    (methods : List CompiledMethod) : Option (List (String × MethodSchema)) → Prop
  | bare (absent : spec.namedSchema? openFile = none) : MadeOf openFile spec methods none
  | named {schema : Schema} {found : List (String × MethodSchema)}
      (compiles : spec.namedSchema? openFile = some (.ok schema))
      (all : resolveAll schema.resolve methods = .ok found) :
      MadeOf openFile spec methods (some found)

theorem attach_eq_ok_iff {q : Provider ε} {resolve : MethodSpec → Except SchemaFault MethodSchema} :
    p.attach resolve = .ok q ↔
      ∃ found, resolveAll resolve p.methods = .ok found ∧ q = { p with schemas := some found } := by
  rw [attach]
  cases resolveAll resolve p.methods with
  | error fault => simp
  | ok found => simp [eq_comm]

/-- A schema that is named is attached in one way, wherever it comes from. -/
theorem attachNamed_of_named {compiled : Except SchemaFault Schema}
    (h : p.spec.namedSchema? openFile = some compiled) :
    attachNamed openFile p = compiled.bind fun schema => p.attach schema.resolve := by
  cases hSchema : p.spec.schema with
  | none => simp [ProviderSpec.namedSchema?, hSchema] at h
  | some source =>
    rw [ProviderSpec.namedSchema?, hSchema, Option.map_some, Option.some.injEq] at h
    subst h
    -- a schema written into the document is compiled under the name of the provider
    cases source with
    | inline source =>
      simp only [attachNamed, hSchema, attachSource, name]
      cases Schema.ofSource (p.spec.name ++ ".proto") source <;> rfl
    | file path =>
      simp only [attachNamed, hSchema]
      cases Schema.ofFile openFile path <;> rfl

theorem attachNamed_of_not_named (h : p.spec.namedSchema? openFile = none) :
    attachNamed openFile p = .ok p := by
  rw [ProviderSpec.namedSchema?, Option.map_eq_none_iff] at h
  simp only [attachNamed, h]

theorem attachNamed_eq_ok_iff {methods : List CompiledMethod} :
    attachNamed openFile ⟨spec, methods, retry, endpoint, none⟩ = .ok p ↔
      ∃ schemas, MadeOf openFile spec methods schemas ∧ p = ⟨spec, methods, retry, endpoint, schemas⟩ := by
  cases hNamed : spec.namedSchema? openFile with
  | none =>
    rw [attachNamed_of_not_named (p := ⟨spec, methods, retry, endpoint, none⟩) hNamed,
      Except.ok.injEq]
    constructor
    · intro h
      exact ⟨none, .bare hNamed, h.symm⟩
    · rintro ⟨schemas, hMade, rfl⟩
      cases hMade with
      | bare => rfl
      | named hSome => rw [hNamed] at hSome; cases hSome
  | some compiled =>
    rw [attachNamed_of_named (p := ⟨spec, methods, retry, endpoint, none⟩) hNamed]
    constructor
    · intro h
      cases compiled with
      | error fault => cases h
      -- a description that names a schema is attached exactly if the schema resolves every method
      | ok schema =>
        obtain ⟨found, hAll, hEq⟩ := attach_eq_ok_iff.1 h
        exact ⟨some found, .named hNamed hAll, hEq⟩
    · rintro ⟨schemas, hMade, hEq⟩
      cases hMade with
      | bare hNone => rw [hNone] at hNamed; cases hNamed
      | named hSome hAll =>
        obtain rfl := Option.some.inj (hNamed.symm.trans hSome)
        exact attach_eq_ok_iff.2 ⟨_, hAll, hEq⟩

/-- A provider is made of its description, with the texts of its methods parsed and the schema that
it names. -/
theorem make_eq_ok_iff : make openFile retry endpoint spec = .ok p ↔
    ∃ methods schemas, List.Forall₂ CompiledMethod.Compiles spec.methods methods ∧
      MadeOf openFile spec methods schemas ∧ p = ⟨spec, methods, retry, endpoint, schemas⟩ := by
  -- the kind of the error changes on the way, a success does not
  have hMapError : ∀ made : Except SchemaFault (Provider ε),
      made.mapError ProviderError.schema = .ok p ↔ made = .ok p := by
    intro made
    cases made <;> simp [Except.mapError]
  rw [make]
  constructor
  · intro h
    cases hMethods : spec.methods.mapM CompiledMethod.compile with
    | error fault => simp [hMethods] at h
    | ok methods =>
      simp only [hMethods, hMapError, attachNamed_eq_ok_iff] at h
      obtain ⟨schemas, hMade, hEq⟩ := h
      exact ⟨methods, schemas, CompiledMethod.mapM_compile_eq_ok_iff.1 hMethods, hMade, hEq⟩
  · rintro ⟨methods, schemas, hMethods, hMade, hEq⟩
    simp only [CompiledMethod.mapM_compile_eq_ok_iff.2 hMethods, hMapError, attachNamed_eq_ok_iff]
    exact ⟨schemas, hMade, hEq⟩

end Provider

end ItemComposition
