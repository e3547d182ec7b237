import ItemComposition.Proofs.Provider.Schemas
import ItemComposition.Provider.Document
import ItemComposition.Proofs.Provider.Calls

/-!
# The methods that a provider finds under a name

A description finds the first of its methods that has a name. A provider is made with a map from
names to methods, in which the last one stays, and all that it does with a name goes by this map. The
two agree on a name if the first method of that name is the last one too.

## Key results

- `CompiledMethod.get?_ofList`: a map from names to methods has the last method of a name
- `Provider.rel_compiled?_of_make`: the methods of a provider by those of its description
- `Provider.method_eq_of_make`: the method that a provider finds
- `Provider.executes_of_method`: a call is a call of this method and of no other one
- `Provider.lookupsAgree_iff`, `Provider.lookupsAgree_of_nodup`: when the look-ups agree
-/

namespace ItemComposition

namespace ProviderSpec

/-- The last method of a name. -/
def lastMethod? (spec : ProviderSpec) (name : String) : Option MethodSpec :=
  spec.methods.reverse.find? fun m => m.method = name

end ProviderSpec

namespace CompiledMethod

/-- In a map from names to methods the last method of a name stays. -/
theorem get?_ofList (ms : List CompiledMethod) (name : String) :
    Dict.get? (Dict.ofList (ms.map fun m => (m.spec.method, m))) name = last? ms name := by
  -- by induction for any map to begin with: a method takes the place of those before it
  suffices ∀ d : Dict CompiledMethod,
      Dict.get? (Dict.union d (ms.map fun m => (m.spec.method, m))) name =
        (last? ms name).or (Dict.get? d name) from (this []).trans Option.or_none
  induction ms with
  | nil => exact fun d => rfl
  | cons m ms ih =>
    intro d
    rw [List.map_cons, Dict.union, List.foldl_cons, ← Dict.union, ih, last?_cons, Option.or_assoc]
    congr 1
    split
    · rename_i hName
      rw [← hName, Dict.get?_insert_self, Option.some_or]
    · rename_i hName
      rw [Dict.get?_insert_of_ne _ _ (Ne.symm hName), Option.none_or]

theorem rel_find? {specs : List MethodSpec} {methods : List CompiledMethod}
    (h : List.Forall₂ Compiles specs methods) (name : String) :
    Option.Rel Compiles (specs.find? fun m => m.method = name)
      (methods.find? fun m => m.spec.method = name) := by
  induction h with
  | nil => exact .none
  | cons hFirst hRest ih =>
    rw [List.find?_cons, List.find?_cons, hFirst.spec_eq]
    split
    · exact .some hFirst
    · exact ih

end CompiledMethod

namespace Provider

open CompiledMethod

variable {ε : Type} {openFile : String → Option Proto.Bytes} {retry : RetryPolicy} {endpoint : ε}
variable {spec : ProviderSpec} {p q : Provider ε} {name : String}

theorem spec_eq_of_make (h : make openFile retry endpoint spec = .ok p) : p.spec = spec := by
  obtain ⟨methods, schemas, -, -, rfl⟩ := make_eq_ok_iff.1 h
  rfl

/-- A provider calls the last method of a name, with its texts parsed. -/
theorem rel_compiled?_of_make (h : make openFile retry endpoint spec = .ok p) (name : String) :
    Option.Rel Compiles (spec.lastMethod? name) (p.compiled? name) := by
  obtain ⟨methods, schemas, hMethods, -, rfl⟩ := make_eq_ok_iff.1 h
  exact rel_find? (List.forall₂_reverse_iff.2 hMethods) name

/-- A provider finds the last method of a name. -/
theorem method_eq_of_make (h : make openFile retry endpoint spec = .ok p) (name : String) :
    p.method name = match spec.lastMethod? name with
      | some m => .ok m
      | none => .error (.methodNotFound spec.name name) := by
  have hSpec : p.spec = spec := spec_eq_of_make h
  have hRel := rel_compiled?_of_make h name
  rw [method, Provider.name, hSpec]
  generalize spec.lastMethod? name = m at hRel
  generalize p.compiled? name = c at hRel
  cases hRel with
  | none => rfl
  | some hCompiles => simp only [hCompiles.spec_eq]

/-! ## Calls -/

/-- Calls of a method go by the provider's name, the method with its schema, the retries and the
endpoint, and nothing else. -/
theorem call_congr {σ : Type} (hName : p.name = q.name)
    (hMethod : p.compiled? name = q.compiled? name)
    (hSchema : ∀ m, p.compiled? name = some m → p.schemaOf m = q.schemaOf m)
    (hRetry : p.retry = q.retry) (hEndpoint : p.endpoint = q.endpoint) (network : Network ε σ)
    (t : CallTime) (item : Json) (state : σ) :
    p.call network t name item state = q.call network t name item state := by
  -- a call looks at the name, the method, its schema, the policy and the endpoint
  have hPrepare : p.prepare t.wall name item = q.prepare t.wall name item := by
    rw [prepare, prepare, ← hMethod, hName]
    cases hCompiled : p.compiled? name with
    | none => rfl
    | some m => simp only [hSchema m hCompiled]
  have hSend : ∀ timeout schema request, p.send network t timeout schema request state =
      q.send network t timeout schema request state := by
    intro timeout schema request
    rw [send, send, hRetry, hEndpoint]
  simp only [call, hPrepare, hSend]

/-- Calls of a name are the calls of one method: a provider that has this method alone makes the
same ones. -/
def Executes (openFile : String → Option Proto.Bytes) (p : Provider ε) (name : String)
    (m : MethodSpec) : Prop :=
  ∃ q, make openFile p.retry p.endpoint { p.spec with methods := [m] } = .ok q ∧
    ∀ (σ : Type) (network : Network ε σ) (t : CallTime) (item : Json) (state : σ),
      p.call network t name item state = q.call network t name item state

/-- The last method of a name, with its texts parsed. -/
theorem exists_compiled_of_method {m : MethodSpec} (h : make openFile retry endpoint spec = .ok p)
    (hMethod : p.method name = .ok m) : ∃ c, p.compiled? name = some c ∧ Compiles m c := by
  have hRel := rel_compiled?_of_make h name
  rw [method] at hMethod
  generalize spec.lastMethod? name = last at hRel
  generalize p.compiled? name = compiled at hRel hMethod
  cases hRel with
  | none => cases hMethod
  | some hCompiles =>
    obtain rfl := Except.ok.inj hMethod
    exact ⟨_, rfl, by rwa [hCompiles.spec_eq]⟩

theorem last?_alone {c : CompiledMethod} (hName : c.spec.method = name) :
    last? [c] name = some c := by
  rw [← hName]
  exact last?_cons_self rfl

/-- A method has the same schema when it is the only one. -/
theorem MadeOf.alone {methods : List CompiledMethod} {schemas : Option (List (String × MethodSchema))}
    {c : CompiledMethod} (h : MadeOf openFile spec methods schemas)
    (hLast : last? methods name = some c) (m : MethodSpec) (retry : RetryPolicy) (endpoint : ε) :
    ∃ schemas', MadeOf openFile { spec with methods := [m] } [c] schemas' ∧
      schemaOf ⟨spec, methods, retry, endpoint, schemas⟩ c =
        schemaOf ⟨{ spec with methods := [m] }, [c], retry, endpoint, schemas'⟩ c := by
  cases h with
  | bare hNone => exact ⟨none, .bare hNone, rfl⟩
  | @named schema found hNamed hAll =>
    have hResolved := resolved_of_resolveAll hAll
    obtain ⟨known, hKnown⟩ := hResolved.all name c hLast
    have hAlone : last? [c] name = some c := last?_alone (method_of_last? hLast)
    -- the schema of one method is found among all, so it is found alone
    obtain ⟨found', hAll'⟩ : ∃ found', resolveAll schema.resolve [c] = .ok found' :=
      ⟨[(c.spec.method, known)], by simp [resolveAll, hKnown]⟩
    refine ⟨some found', .named hNamed hAll', ?_⟩
    have hBefore := hResolved.schemaOf (p := ⟨spec, methods, retry, endpoint, some found⟩) rfl
      hLast hKnown
    have hAfter := (resolved_of_resolveAll hAll').schemaOf
      (p := ⟨{ spec with methods := [m] }, [c], retry, endpoint, some found'⟩) rfl hAlone hKnown
    exact hBefore.trans hAfter.symm

theorem executes_of_method {m : MethodSpec} (h : make openFile retry endpoint spec = .ok p)
    (hMethod : p.method name = .ok m) : p.Executes openFile name m := by
  obtain ⟨c, hCompiled, hCompiles⟩ := exists_compiled_of_method h hMethod
  have hAlone : last? [c] name = some c := last?_alone (method_of_last? hCompiled)
  obtain ⟨methods, schemas, -, hMade, rfl⟩ := make_eq_ok_iff.1 h
  obtain ⟨schemas', hMade', hSchema⟩ := hMade.alone hCompiled m retry endpoint
  refine ⟨⟨{ spec with methods := [m] }, [c], retry, endpoint, schemas'⟩, ?_, ?_⟩
  · exact make_eq_ok_iff.2 ⟨[c], schemas', .cons hCompiles .nil, hMade', rfl⟩
  · -- the provider with this one method makes the calls that the whole one makes
    intro σ network t item state
    apply call_congr
    case hName | hRetry | hEndpoint => rfl
    case hMethod => exact hCompiled.trans hAlone.symm
    case hSchema =>
      intro other hOther
      obtain rfl := Option.some.inj (hCompiled.symm.trans hOther)
      exact hSchema

/-- A description and its provider find no method of a name, or the same one, which is the one that
is called. -/
def LookupsAgree (openFile : String → Option Proto.Bytes) (p : Provider ε) (name : String) : Prop :=
  (p.spec.method? name = none ∧ p.method name = .error (.methodNotFound p.name name)) ∨
    ∃ m, p.spec.method? name = some m ∧ p.method name = .ok m ∧ p.Executes openFile name m

/-- The two look-ups agree on a name exactly if its first method is its last one. -/
theorem lookupsAgree_iff (h : make openFile retry endpoint spec = .ok p) :
    p.LookupsAgree openFile name ↔ spec.method? name = spec.lastMethod? name := by
  have hSpec : p.spec = spec := spec_eq_of_make h
  have hMethod := method_eq_of_make h name
  rw [LookupsAgree, hSpec]
  constructor
  · -- nothing is found by either, or both find one: the first or the last of its name
    rintro (⟨hFirst, hNone⟩ | ⟨m, hFirst, hFound, -⟩)
    · rw [hFirst]
      cases hLast : spec.lastMethod? name with
      | none => rfl
      | some last => simp [hMethod, hLast] at hNone
    · rw [hFirst]
      cases hLast : spec.lastMethod? name with
      | none => simp [hMethod, hLast] at hFound
      | some last =>
        simp only [hMethod, hLast, Except.ok.injEq] at hFound
        rw [hFound]
  · intro hSame
    cases hLast : spec.lastMethod? name with
    | none => exact .inl ⟨hSame.trans hLast, by rw [hMethod, hLast, Provider.name, hSpec]⟩
    | some m =>
      have hFound : p.method name = .ok m := by rw [hMethod, hLast]
      exact .inr ⟨m, hSame.trans hLast, hFound, executes_of_method h hFound⟩

/-- The two look-ups agree on all names if no two methods share one. -/
theorem lookupsAgree_of_nodup (h : make openFile retry endpoint spec = .ok p)
    (nodup : (spec.methods.map MethodSpec.method).Nodup) (name : String) :
    p.LookupsAgree openFile name := by
  rw [lookupsAgree_iff h, ProviderSpec.method?, ProviderSpec.lastMethod?]
  cases hFirst : spec.methods.find? fun m => m.method = name with
  | none =>
    rw [List.find?_eq_none] at hFirst
    exact (List.find?_eq_none.2 fun m hm => hFirst m (List.mem_reverse.1 hm)).symm
  -- names are not repeated, so the first one with the name is the last one too
  | some m =>
    obtain rfl : m.method = name := by simpa using List.find?_some hFirst
    have hReverse : (spec.methods.reverse.map MethodSpec.method).Nodup := by
      rw [List.map_reverse, List.nodup_reverse]
      exact nodup
    have hMem := List.mem_reverse.2 (List.mem_of_find?_eq_some hFirst)
    exact (Cache.find?_key_of_mem hReverse hMem).symm

/-- What a provider finds under a name is the last method of that name in its description, and this
is the one that it calls. The description finds the first one: the two agree on a name exactly if
the first is the last. -/
theorem method_lookups (made : make openFile retry endpoint spec = .ok p) (name : String) :
    (p.LookupsAgree openFile name ↔ spec.method? name = spec.lastMethod? name) ∧
    (p.method name = match spec.lastMethod? name with
      | some m => .ok m
      | none => .error (.methodNotFound spec.name name)) ∧
    ∀ m, p.method name = .ok m → p.Executes openFile name m :=
  ⟨lookupsAgree_iff made, method_eq_of_make made name, fun _ => executes_of_method made⟩

namespace TwoCounts

/-- A method of a service, as a document has it. -/
def method (service timeout : String) : Json :=
  .obj [("method", .str "Count"), ("package", .str "shop"), ("request", .obj []),
    ("response", .obj []), ("service", .str service), ("timeout", .str timeout),
    ("type", .str "Item")]

/-- A provider of two methods of one name, from different services. -/
def document : Json :=
  .obj [("kind", .str "ProviderGRPC"), ("metadata", .obj [("name", .str "shop")]),
    ("spec", .obj [("methods", .arr [method "Carts" "1s", method "Orders" "2s"]),
      ("payload", .obj [("headers", .obj [])]),
      ("transport", .obj [("address", .str "localhost:1"), ("timeout", .str "1s")])]),
    ("version", .str "v1")]

/-- The services of the methods that a description and its provider find under a name. -/
def services (spec : ProviderSpec) (p : Provider Unit) (name : String) :
    Option String × Option String :=
  ((spec.method? name).map MethodSpec.service, (p.method name).toOption.map MethodSpec.service)

/-- The services that the document's description and provider find, if there are both. -/
def found (name : String) : Option (Option String × Option String) :=
  match ProviderSpec.ofDocument [] document with
  | .error _ => none
  | .ok spec =>
    match make (fun _ => none) .standard () spec with
    | .error _ => none
    | .ok p => some (services spec p name)

theorem found_count : found "Count" = some (some "Carts", some "Orders") := by
  decide +kernel

theorem exists_made : ∃ spec p, ProviderSpec.ofDocument [] document = .ok spec ∧
    make (fun _ => none) .standard () spec = .ok p ∧
    services spec p "Count" = (some "Carts", some "Orders") := by
  have hFound := found_count
  unfold found at hFound
  split at hFound
  · cases hFound
  · rename_i spec hSpec
    split at hFound
    · cases hFound
    · rename_i p hMade
      exact ⟨spec, p, hSpec, hMade, Option.some.inj hFound⟩

end TwoCounts

/-- The provider calls the method of the second service. -/
theorem method_lookups_twoCounts : ∃ spec p, ∃ m : MethodSpec,
    make (fun _ => none) .standard () spec = .ok p ∧ m.service = "Orders" ∧
      p.Executes (fun _ => none) "Count" m := by
  obtain ⟨spec, p, -, hMade, hServices⟩ := TwoCounts.exists_made
  obtain ⟨m, hMethod, hService⟩ := Option.map_eq_some_iff.1 (Prod.mk.inj hServices).2
  have hFound : p.method "Count" = .ok m := by
    cases hResult : p.method "Count" with
    | error e => simp [hResult, Except.toOption] at hMethod
    | ok other =>
      rw [hResult] at hMethod
      rw [Option.some.inj hMethod]
  exact ⟨spec, p, m, hMade, hService, (method_lookups hMade "Count").2.2 m hFound⟩

/-- The two look-ups do not agree on the names of all documents. -/
theorem not_lookups_agree : ¬ ∀ (document : Json) (spec : ProviderSpec) (p : Provider Unit)
    (name : String), ProviderSpec.ofDocument [] document = .ok spec →
      make (fun _ => none) .standard () spec = .ok p → p.LookupsAgree (fun _ => none) name := by
  intro h
  obtain ⟨spec, p, hSpec, hMade, hServices⟩ := TwoCounts.exists_made
  obtain ⟨hFirst, hLast⟩ := Prod.mk.inj hServices
  have hOwn : p.spec = spec := spec_eq_of_make hMade
  -- the description has two methods of one name: the first is of one service, the last of another
  obtain ⟨hNone, -⟩ | ⟨m, hSome, hMethod, -⟩ := h TwoCounts.document spec p "Count" hSpec hMade
  · rw [← hOwn, hNone] at hFirst
    cases hFirst
  · rw [← hOwn, hSome, Option.map_some, Option.some.injEq] at hFirst
    rw [hMethod] at hLast
    have hSame : m.service = "Orders" := Option.some.inj hLast
    rw [hFirst] at hSame
    exact absurd hSame (by decide)

end Provider

end ItemComposition
