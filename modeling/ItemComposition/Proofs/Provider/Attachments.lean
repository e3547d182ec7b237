import ItemComposition.Proofs.Provider.Calls
import ItemComposition.Proofs.Provider.Schemas
import ItemComposition.Provider.Attachment

/-!
# Which schema a call uses

Resolvers are attached to a provider one after the other, some without success, and in between its
methods are called. What the provider keeps then is all that the last resolver with success says of
its methods, and nothing that an earlier one has said.

`Attachment.Consistent` is the invariant. It also says that a call never has to resolve a schema
itself: an attachment has resolved those of all methods that can be called.

## Key results

- `Attachment.attach_cases`: all that an attachment can do
- `Provider.consistent_act`, `Provider.consistent_actAll`: the invariant
- `Provider.attached_ok_iff`: when an attachment succeeds
- `Provider.Holds`: a provider with its schemas and a provider with an attachment say the same when
  they are made (`holds_of_make`), when a schema is attached (`holds_attach`) and when a method is
  called (`Holds.callWith_eq`)
- `Provider.schema_of_latest_attachment`: which schema a call uses
-/

namespace ItemComposition

open CompiledMethod Provider

variable {ε σ : Type}

namespace Attachment

variable {a : Attachment} {ms : List CompiledMethod} {latest : Option SchemaResolver}
variable {resolve : SchemaResolver} {m : CompiledMethod} {name provider : String}

/-- An attachment changes everything or nothing. -/
theorem attach_cases (a : Attachment) (ms : List CompiledMethod) (resolve : SchemaResolver) :
    (∃ found, resolveAll resolve ms = .ok found ∧
      a.attach ms resolve = (⟨some resolve, Dict.ofList found⟩, .ok ())) ∨
    ∃ e, resolveAll resolve ms = .error e ∧ a.attach ms resolve = (a, .error e) := by
  cases hAll : resolveAll resolve ms with
  | ok found =>
    left
    exact ⟨found, rfl, by rw [attach, hAll]⟩
  | error e =>
    right
    exact ⟨e, rfl, by rw [attach, hAll]⟩

/-- What is kept is what the last resolver that was attached says of all methods. -/
inductive Consistent (ms : List CompiledMethod) : Option SchemaResolver → Attachment → Prop
  | empty : Consistent ms none .empty
  | attached {resolve : SchemaResolver} {found : List (String × MethodSchema)}
      (all : resolveAll resolve ms = .ok found) :
      Consistent ms (some resolve) ⟨some resolve, Dict.ofList found⟩

theorem Consistent.isAttached_eq (h : Consistent ms latest a) : a.isAttached = latest.isSome := by
  cases h <;> rfl

/-- A resolver that is attached is the one that speaks, and nothing is left to be resolved. -/
theorem Consistent.schemaOf_of_some (h : Consistent ms (some resolve) a)
    (hLast : last? ms name = some m) (provider : String) :
    ∃ schema, resolve m.spec = .ok schema ∧ a.schemaOf provider m.spec = (a, .ok schema) := by
  cases h with
  | attached all =>
    have hResolved := resolved_of_resolveAll all
    obtain ⟨schema, hSchema⟩ := hResolved.all name m hLast
    refine ⟨schema, hSchema, ?_⟩
    simp only [schemaOf, method_of_last? hLast, hResolved.get?_ofList hLast hSchema]

theorem Consistent.schemaOf_of_none (h : Consistent ms none a) (provider : String)
    (m : MethodSpec) : a.schemaOf provider m = (a, .error (.schema (.absent provider))) := by
  cases h
  rfl

theorem Consistent.attach (h : Consistent ms latest a) (resolve : SchemaResolver) :
    (a.attach ms resolve).2 = .ok () ∧ Consistent ms (some resolve) (a.attach ms resolve).1 ∨
      (∃ e, (a.attach ms resolve).2 = .error e) ∧ Consistent ms latest (a.attach ms resolve).1 := by
  obtain ⟨found, hAll, hAttach⟩ | ⟨e, -, hAttach⟩ := a.attach_cases ms resolve
  · left
    rw [hAttach]
    exact ⟨rfl, .attached hAll⟩
  · right
    rw [hAttach]
    exact ⟨⟨e, rfl⟩, h⟩

end Attachment

namespace Provider

open Attachment (Consistent)

variable {p : Provider ε} {network : Network ε σ} {a : Attachment} {state : σ} {s : Setting σ}
variable {latest : Option SchemaResolver} {t : CallTime} {name : String} {item : Json}
variable {m : CompiledMethod} {action : Action}

/-! ## Calls -/

/-- Without a schema a call ends at its filter, if not before. -/
theorem callWith_of_none (h : Consistent p.methods none a) (hMatched : p.Matched t.wall name item m) :
    p.callWith network t name item a state =
      (a, ⟨state, t.now, .error (.schema (.absent p.name))⟩) := by
  have hFilter := passesFilter_eq_true_iff.2 hMatched.filter
  simp only [callWith, hMatched.method, hFilter, h.schemaOf_of_none]

theorem callWith_of_some {resolve : SchemaResolver} (h : Consistent p.methods (some resolve) a)
    (hMatched : p.Matched t.wall name item m) (network : Network ε σ) (state : σ) :
    ∃ schema, resolve m.spec = .ok schema ∧ p.callWith network t name item a state =
      (a, p.callUsing network t m schema item state) := by
  obtain ⟨schema, hSchema, hKept⟩ := h.schemaOf_of_some hMatched.method p.name
  have hFilter := passesFilter_eq_true_iff.2 hMatched.filter
  refine ⟨schema, hSchema, ?_⟩
  simp only [callWith, hMatched.method, hFilter, hKept]

/-- A call that has no method or does not pass its filter ends before it comes to a schema. -/
theorem call_of_not_matched (h : ¬∃ m, p.Matched t.wall name item m) (network : Network ε σ) :
    ∃ result, ∀ (a : Attachment) (state : σ),
      p.callWith network t name item a state = (a, ⟨state, t.now, result⟩) ∧
        p.call network t name item state = ⟨state, t.now, result⟩ := by
  -- no such method, a filter that fails, or one that says no: the attachment is not looked at
  cases hMethod : p.compiled? name with
  | none =>
    refine ⟨.error (.methodNotFound p.name name), fun a state => ?_⟩
    simp only [callWith, call, prepare, hMethod, and_self]
  | some m =>
    cases hFilter : passesFilter t.wall m item with
    | error cause =>
      refine ⟨.error (.filter name cause), fun a state => ?_⟩
      simp only [callWith, call, prepare, hMethod, hFilter, and_self]
    | ok b =>
      cases b with
      | true => exact absurd ⟨m, hMethod, passesFilter_eq_true_iff.1 hFilter⟩ h
      | false =>
        refine ⟨.ok .noMatch, fun a state => ?_⟩
        simp only [callWith, call, prepare, hMethod, hFilter, and_self]

/-- Calls resolve nothing. -/
theorem fst_callWith (h : Consistent p.methods latest a) (t : CallTime) (name : String)
    (item : Json) (state : σ) : (p.callWith network t name item a state).1 = a := by
  by_cases hMatched : ∃ m, p.Matched t.wall name item m
  · obtain ⟨m, hMatched⟩ := hMatched
    cases latest with
    | none => rw [callWith_of_none h hMatched]
    | some resolve =>
      obtain ⟨schema, -, hCall⟩ := callWith_of_some h hMatched network state
      rw [hCall]
  · obtain ⟨result, hCall⟩ := call_of_not_matched hMatched network
    rw [(hCall a state).1]

/-! ## Actions in a row -/

/-- The resolver that an action attaches if it succeeds. -/
def Action.offered? (p : Provider ε) : Action → Option SchemaResolver
  | .attach resolve => some resolve
  | .attachSource source =>
    (Schema.ofSource (p.name ++ ".proto") source).toOption.map Schema.resolver
  | .call .. => none

/-- The resolver that an action has attached. -/
def installed? (p : Provider ε) (event : Action × Answer σ) : Option SchemaResolver :=
  match event.2 with
  | .attached (.ok ()) => event.1.offered? p
  | _ => none

/-- The resolver of the latest attachment that succeeded. -/
def latest? (p : Provider ε) (events : List (Action × Answer σ)) : Option SchemaResolver :=
  events.reverse.findSome? p.installed?

theorem latest?_cons (p : Provider ε) (event : Action × Answer σ)
    (events : List (Action × Answer σ)) :
    p.latest? (event :: events) = (p.latest? events).or (p.installed? event) := by
  rw [latest?, List.reverse_cons, List.findSome?_append, List.findSome?_singleton, ← latest?]

/-- To attach is the same for all actions that offer a resolver. -/
theorem act_of_offered {resolve : SchemaResolver} (h : action.offered? p = some resolve) :
    p.act network s action = ({ s with attachment := (s.attachment.attach p.methods resolve).1 },
      .attached (s.attachment.attach p.methods resolve).2) := by
  cases action with
  | attach other =>
    obtain rfl := Option.some.inj h
    rfl
  | attachSource source =>
    -- a source that does not compile offers nothing
    cases hSource : Schema.ofSource (p.name ++ ".proto") source with
    | error fault => simp [Action.offered?, hSource, Except.toOption] at h
    | ok schema =>
      simp only [Action.offered?, hSource, Except.toOption, Option.map_some, Option.some.injEq] at h
      subst h
      simp only [act, hSource]
  | call => cases h

/-- A source text that does not compile is not attached. -/
theorem act_of_not_offered (h : action.offered? p = none) (network : Network ε σ)
    (s : Setting σ) :
    (∃ t method item, action = .call t method item) ∨
      ∃ fault, p.act network s action = (s, .attached (.error (.schema fault))) := by
  cases action with
  | attach => cases h
  | attachSource source =>
    cases hSource : Schema.ofSource (p.name ++ ".proto") source with
    | ok schema => simp [Action.offered?, hSource, Except.toOption] at h
    | error fault => exact .inr ⟨fault, by simp only [act, hSource]⟩
  | call t method item => exact .inl ⟨t, method, item, rfl⟩

theorem consistent_act (h : Consistent p.methods latest s.attachment) (network : Network ε σ)
    (action : Action) :
    Consistent p.methods ((p.installed? (action, (p.act network s action).2)).or latest)
      (p.act network s action).1.attachment := by
  cases hOffered : action.offered? p with
  | some resolve =>
    rw [act_of_offered hOffered, installed?]
    -- with success this resolver is the latest one, without the one before still is
    obtain ⟨hOk, hNext⟩ | ⟨⟨e, hError⟩, hNext⟩ := h.attach resolve
    · simpa only [hOk, hOffered, Option.some_or] using hNext
    · simpa only [hError, Option.none_or] using hNext
  | none =>
    obtain ⟨t, method, item, rfl⟩ | ⟨fault, hAct⟩ :=
      act_of_not_offered hOffered network s
    · simpa only [Provider.act, installed?, fst_callWith h, Option.none_or] using h
    · simpa only [hAct, installed?, Option.none_or] using h

theorem consistent_actAll (h : Consistent p.methods latest s.attachment) (network : Network ε σ)
    (actions : List Action) :
    Consistent p.methods ((p.latest? (p.actAll network s actions).2).or latest)
      (p.actAll network s actions).1.attachment := by
  induction actions generalizing s latest with
  | nil => exact h
  | cons action rest ih =>
    have hRest := ih (consistent_act h network action)
    rw [Provider.actAll, latest?_cons, Option.or_assoc]
    exact hRest

/-! ## What an attachment answers -/

/-- An attachment succeeds exactly if a resolver is there and finds the schemas of all methods. -/
theorem attached_ok_iff : (p.act network s action).2 = .attached (.ok ()) ↔
    ∃ resolve, action.offered? p = some resolve ∧ ResolvesAll resolve p.methods := by
  cases hOffered : action.offered? p with
  | some resolve =>
    rw [act_of_offered hOffered, Answer.attached.injEq]
    -- all methods are resolved or the schema is not attached at all
    obtain ⟨found, hAll, hAttach⟩ | ⟨e, hAll, hAttach⟩ :=
      s.attachment.attach_cases p.methods resolve
    · simp only [hAttach, Option.some.injEq, exists_eq_left', true_iff]
      exact exists_resolveAll_iff.1 ⟨found, hAll⟩
    · simp only [hAttach, Option.some.injEq, exists_eq_left', reduceCtorEq, false_iff]
      intro hResolves
      obtain ⟨found, hFound⟩ := exists_resolveAll_iff.2 hResolves
      rw [hAll] at hFound
      cases hFound
  -- what offers no schema is a call, or an attachment that has failed to compile
  | none =>
    simp only [reduceCtorEq, false_and, exists_false, iff_false]
    obtain ⟨t, method, item, rfl⟩ | ⟨fault, hAct⟩ :=
      act_of_not_offered hOffered network s
    · nofun
    · rw [hAct]
      nofun

/-- An attachment that fails leaves everything as it is. -/
theorem act_of_attached_error {e : ProviderError}
    (h : (p.act network s action).2 = .attached (.error e)) : (p.act network s action).1 = s := by
  cases hOffered : action.offered? p with
  | some resolve =>
    rw [act_of_offered hOffered] at h ⊢
    obtain ⟨found, -, hAttach⟩ | ⟨e, -, hAttach⟩ := s.attachment.attach_cases p.methods resolve
    · rw [hAttach] at h
      cases h
    · rw [hAttach]
  | none =>
    obtain ⟨t, method, item, rfl⟩ | ⟨fault, hAct⟩ :=
      act_of_not_offered hOffered network s
    · cases h
    · rw [hAct]

theorem act_eq_of_mem_actAll {actions : List Action} {answer : Answer σ}
    (h : (action, answer) ∈ (p.actAll network s actions).2) :
    ∃ s, (p.act network s action).2 = answer := by
  induction actions generalizing s with
  | nil => cases h
  | cons first rest ih =>
    rw [actAll] at h
    obtain hFirst | hRest := List.mem_cons.1 h
    · obtain ⟨rfl, rfl⟩ := Prod.mk.inj hFirst
      exact ⟨s, rfl⟩
    · exact ih hRest

/-- A resolver has been attached iff some attachment has succeeded. -/
theorem isSome_latest?_iff {actions : List Action} :
    (p.latest? (p.actAll network s actions).2).isSome = true ↔
      ∃ event ∈ (p.actAll network s actions).2, event.2 = .attached (.ok ()) := by
  rw [latest?, List.findSome?_isSome_iff]
  simp only [List.mem_reverse]
  constructor
  · rintro ⟨⟨action, answer⟩, hMem, hInstalled⟩
    refine ⟨_, hMem, ?_⟩
    rw [installed?] at hInstalled
    split at hInstalled
    · assumption
    · cases hInstalled
  · rintro ⟨⟨action, answer⟩, hMem, hOk⟩
    -- the last one attached is read off the answers; the act that gave it offered a schema
    obtain rfl : answer = .attached (.ok ()) := hOk
    obtain ⟨before, hAct⟩ := act_eq_of_mem_actAll hMem
    obtain ⟨resolve, hOffered, -⟩ := attached_ok_iff.1 hAct
    exact ⟨_, hMem, by rw [installed?, hOffered]; rfl⟩

/-! ## Providers that hold their schemas -/

/-- A provider holds the schemas that an attachment keeps, and so needs no resolver. -/
structure Holds (p : Provider ε) (a : Attachment) : Prop where
  attached : p.hasSchema = a.isAttached
  schema : ∀ name m, p.compiled? name = some m → a.schemaOf p.name m.spec = (a, p.schemaOf m)

theorem holds_of_not_attached (h : p.schemas = none) : p.Holds .empty := by
  refine ⟨by rw [hasSchema, h]; rfl, fun name m hMethod => ?_⟩
  rw [schemaOf_of_not_attached h]
  rfl

theorem holds_of_resolveAll {resolve : MethodSpec → Except SchemaFault MethodSchema}
    {found : List (String × MethodSchema)} (h : resolveAll resolve p.methods = .ok found)
    (hSchemas : p.schemas = some found) (resolver : SchemaResolver) :
    p.Holds ⟨some resolver, Dict.ofList found⟩ := by
  have hResolved := resolved_of_resolveAll h
  refine ⟨by rw [hasSchema, hSchemas]; rfl, fun name m hMethod => ?_⟩
  obtain ⟨schema, hSchema⟩ := hResolved.all name m hMethod
  have hHeld : p.schemaOf m = .ok schema := hResolved.schemaOf hSchemas hMethod hSchema
  have hName : m.spec.method = name := method_of_last? hMethod
  simp only [Attachment.schemaOf, hName, hResolved.get?_ofList hMethod hSchema, hHeld]

theorem callUsing_eq_call {schema : MethodSchema} (hMatched : p.Matched t.wall name item m)
    (hSchema : p.schemaOf m = .ok schema) :
    p.callUsing network t m schema item state = p.call network t name item state := by
  have hFilter := passesFilter_eq_true_iff.2 hMatched.filter
  have hName : m.spec.method = name := method_of_last? hMatched.method
  cases hBody : m.requestFor item with
  | error fault => simp only [callUsing, call, prepare, hMatched.method, hFilter, hSchema, hBody]
  | ok body =>
    cases hRequest : schema.request body with
    | error e =>
      simp only [callUsing, call, prepare, hMatched.method, hFilter, hSchema, hBody, hRequest]
    | ok request =>
      have hPrepare : p.prepare t.wall name item = .ok (some (m, schema, request)) := by
        simp only [prepare, hMatched.method, hFilter, hSchema, hBody, hRequest]
      cases hRun : (p.send network t m.spec.timeout schema request state).result with
      | error stop => simp only [callUsing, call, hPrepare, hBody, hRequest, hRun, hName]
      | ok response => simp only [callUsing, call, hPrepare, hBody, hRequest, hRun]

/-- A call of a provider that holds its schemas is a call with the attachment. -/
theorem Holds.callWith_eq (h : p.Holds a) (network : Network ε σ) (t : CallTime) (name : String)
    (item : Json) (state : σ) :
    p.callWith network t name item a state = (a, p.call network t name item state) := by
  by_cases hMatched : ∃ m, p.Matched t.wall name item m
  · obtain ⟨m, hMatched⟩ := hMatched
    have hKept := h.schema name m hMatched.method
    have hFilter := passesFilter_eq_true_iff.2 hMatched.filter
    cases hSchema : p.schemaOf m with
    | error e => simp only [callWith, call, prepare, hMatched.method, hFilter, hKept, hSchema]
    | ok schema =>
      rw [← callUsing_eq_call hMatched hSchema]
      simp only [callWith, hMatched.method, hFilter, hKept, hSchema]
  · obtain ⟨result, hCall⟩ := call_of_not_matched hMatched network
    rw [(hCall a state).1, (hCall a state).2]

/-- To attach a schema to a provider that holds its schemas is to attach its resolver. -/
theorem holds_attach (p : Provider ε) (a : Attachment) (schema : Schema) :
    match p.attach schema.resolve with
    | .ok q => (a.attach p.methods schema.resolver).2 = .ok () ∧
        q.Holds (a.attach p.methods schema.resolver).1
    | .error fault => a.attach p.methods schema.resolver = (a, .error (.schema fault)) := by
  have hAll : resolveAll schema.resolver p.methods =
      (resolveAll schema.resolve p.methods).mapError ProviderError.schema :=
    resolveAll_mapError ProviderError.schema p.methods
  cases hFound : resolveAll schema.resolve p.methods with
  | error fault => simp only [attach, Attachment.attach, hAll, hFound, Except.mapError]
  | ok found =>
    simp only [attach, Attachment.attach, hAll, hFound, Except.mapError, true_and]
    exact holds_of_resolveAll (p := { p with schemas := some found }) hFound rfl _

/-- A schema that the description names is attached by one action. -/
theorem setUp_of_named {openFile : String → Option Proto.Bytes} {schema : Schema}
    (h : p.spec.namedSchema? openFile = some (.ok schema)) :
    ∃ action, p.setUp openFile = [action] ∧ action.offered? p = some schema.resolver := by
  cases hSource : p.spec.schema with
  | none => simp [ProviderSpec.namedSchema?, hSource] at h
  | some source =>
    rw [ProviderSpec.namedSchema?, hSource, Option.map_some, Option.some.injEq] at h
    cases source with
    | inline source =>
      refine ⟨.attachSource source, by simp only [setUp, hSource], ?_⟩
      have hOk : Schema.ofSource (p.name ++ ".proto") source = .ok schema := h
      rw [Action.offered?, hOk]
      rfl
    | file path => exact ⟨.attach schema.resolver, by simp only [setUp, hSource, h], rfl⟩

/-- A provider that has just been made holds the schemas that its own attachment resolves. -/
theorem holds_of_make {openFile : String → Option Proto.Bytes} {retry : RetryPolicy} {endpoint : ε}
    {spec : ProviderSpec} (h : make openFile retry endpoint spec = .ok p) (network : Network ε σ)
    (state : σ) :
    p.Holds (p.actAll network ⟨.empty, state⟩ (p.setUp openFile)).1.attachment := by
  obtain ⟨methods, schemas, -, hMade, rfl⟩ := make_eq_ok_iff.1 h
  cases hMade with
  | bare hNone =>
    have hNothing : spec.schema = none := Option.map_eq_none_iff.1 hNone
    simp only [setUp, hNothing, actAll]
    exact holds_of_not_attached rfl
  | @named schema found hNamed hAll =>
    obtain ⟨action, hSetUp, hOffered⟩ := setUp_of_named
      (p := ⟨spec, methods, retry, endpoint, some found⟩) hNamed
    have hResolver : resolveAll schema.resolver methods = .ok found := by
      rw [show resolveAll schema.resolver methods = _ from
        resolveAll_mapError ProviderError.schema methods, hAll]
      rfl
    rw [hSetUp, actAll, act_of_offered hOffered]
    simp only [actAll, Attachment.attach, hResolver]
    exact holds_of_resolveAll hAll rfl _

/-! ## The schema of the latest attachment -/

/-- From the schema on that its description names, resolvers are attached to a provider and its
methods are called, in any order. An attachment succeeds if its resolver finds the schemas of all
methods, and else changes nothing. A schema is attached iff some attachment has succeeded. A call
that passes its filter uses the schema that the resolver of the latest successful attachment has for
its method; before the first one it ends for want of a schema. -/
theorem schema_of_latest_attachment (openFile : String → Option Proto.Bytes) (p : Provider ε)
    (network : Network ε σ) (state : σ) (actions : List Action) :
    let before := p.actAll network ⟨.empty, state⟩ (p.setUp openFile ++ actions)
    let now := before.1
    (∀ action, (p.act network now action).2 = .attached (.ok ()) ↔
      ∃ resolve, action.offered? p = some resolve ∧ ResolvesAll resolve p.methods) ∧
    (∀ action e, (p.act network now action).2 = .attached (.error e) →
      (p.act network now action).1 = now) ∧
    (now.attachment.isAttached = true ↔ ∃ event ∈ before.2, event.2 = .attached (.ok ())) ∧
    ∀ t name item m, p.Matched t.wall name item m →
      match p.latest? before.2 with
      | none => p.callWith network t name item now.attachment now.network =
          (now.attachment, ⟨now.network, t.now, .error (.schema (.absent p.name))⟩)
      | some resolve => ∃ schema, resolve m.spec = .ok schema ∧
          p.callWith network t name item now.attachment now.network =
            (now.attachment, p.callUsing network t m schema item now.network) := by
  intro before now
  -- the empty attachment has no resolver to fall back on, so the events alone decide
  have hNow : Consistent p.methods (p.latest? before.2) now.attachment := by
    have hRun := consistent_actAll (p := p) (s := ⟨.empty, state⟩) .empty network
      (p.setUp openFile ++ actions)
    rwa [Option.or_none] at hRun
  refine ⟨fun action => attached_ok_iff, fun action e => act_of_attached_error, ?_, ?_⟩
  · rw [hNow.isAttached_eq]
    exact isSome_latest?_iff
  · intro t name item m hMatched
    cases hLatest : p.latest? before.2 with
    | none => exact callWith_of_none (hLatest ▸ hNow) hMatched
    | some resolve => exact callWith_of_some (hLatest ▸ hNow) hMatched network now.network

/-! A provider of one method, and resolvers that know all methods or none. -/

namespace Shop

/-- A method without a filter. -/
def count : MethodSpec := ⟨"shop", "Carts", "Count", .item, 0, none, [], []⟩

/-- A provider of this method, whose description names no schema. -/
def provider : Provider Unit where
  spec := ⟨"v1", "shop", [], "localhost:1", 0, false, [], [count], none⟩
  methods := [⟨count, none, []⟩]
  retry := .standard
  endpoint := ()
  schemas := none

def schema (path : String) : MethodSchema := ⟨⟨[], [], []⟩, path, "In", "Out"⟩

def knowing (path : String) : SchemaResolver := fun _ => .ok (schema path)

def refusing : SchemaResolver := fun m => .error (.schema (.unknownService m.serviceFullName))

/-- A network on which nothing can be reached. -/
def unreachable : Network Unit Unit := fun _ _ _ _ _ => ((), ⟨0, .error ⟨.unavailable, ""⟩⟩)

def time : CallTime := ⟨0, none, 0⟩

/-- Two resolvers are attached, with a call and failures in between. -/
def actions : List Action := [.attach (knowing "/old"), .attach refusing,
  .call time "Count" .null, .attach (knowing "/new"), .attach refusing]

/-- What is left of the actions. -/
def now : Setting Unit := (provider.actAll unreachable ⟨.empty, ()⟩ actions).1

end Shop

theorem schema_of_latest_attachment_shop :
    Shop.provider.callWith Shop.unreachable Shop.time "Count" .null Shop.now.attachment () =
      (Shop.now.attachment, Shop.provider.callUsing Shop.unreachable Shop.time
        ⟨Shop.count, none, []⟩ (Shop.schema "/new") .null ()) := by
  have hCall := (schema_of_latest_attachment (fun _ => none) Shop.provider Shop.unreachable ()
    Shop.actions).2.2.2 Shop.time "Count" .null ⟨Shop.count, none, []⟩ ⟨rfl, nofun⟩
  obtain ⟨schema, hSchema, hEq⟩ := hCall
  obtain rfl : Shop.schema "/new" = schema := Except.ok.inj hSchema
  exact hEq

end Provider

end ItemComposition
