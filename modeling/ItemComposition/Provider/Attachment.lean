import ItemComposition.Provider.Call

/-!
# Schemas that are attached to a provider at work

A provider keeps two things about its schema: the resolver that was attached last, and the schemas
that it has resolved so far. To attach a resolver replaces both, or neither if the resolver does not
find the schema of some method. A call takes the schema that is kept for its method; if there is
none, it asks the resolver and keeps the answer.
-/

namespace ItemComposition

/-- What finds the schemas of methods. -/
abbrev SchemaResolver : Type := MethodSpec → Except ProviderError MethodSchema

/-- A compiled schema as a resolver. -/
def Schema.resolver (schema : Schema) : SchemaResolver :=
  fun m => (schema.resolve m).mapError ProviderError.schema

/-- What a provider keeps about its schema. -/
structure Attachment where
  /-- The resolver that was attached last. -/
  resolver : Option SchemaResolver
  /-- Resolved schemas by the names of methods. -/
  kept : Dict MethodSchema

namespace Attachment

/-- Nothing is attached, and nothing is resolved. -/
def empty : Attachment := ⟨none, []⟩

/-- Whether a schema is attached. -/
def isAttached (a : Attachment) : Bool := a.resolver.isSome

/-- Attaches a resolver, if it finds the schemas of all methods. -/
def attach (a : Attachment) (methods : List CompiledMethod) (resolve : SchemaResolver) :
    Attachment × Except ProviderError Unit :=
  match Provider.resolveAll resolve methods with
  | .error e => (a, .error e)
  | .ok found => (⟨some resolve, Dict.ofList found⟩, .ok ())

/-- The schema of a method: the one that is kept, or else what the resolver says, which is kept from
then on. -/
def schemaOf (a : Attachment) (provider : String) (m : MethodSpec) :
    Attachment × Except ProviderError MethodSchema :=
  match Dict.get? a.kept m.method with
  -- a kept schema is not resolved again
  | some schema => (a, .ok schema)
  | none =>
    match a.resolver with
    | none => (a, .error (.schema (.absent provider)))
    | some resolve =>
      match resolve m with
      | .error e => (a, .error e)
      | .ok schema => ({ a with kept := Dict.insert a.kept m.method schema }, .ok schema)

end Attachment

namespace Provider

variable {ε σ : Type}

/-- Calls a method that has passed its filter. The schema builds the request and reads the
response. -/
def callUsing (p : Provider ε) (network : Network ε σ) (t : CallTime) (m : CompiledMethod)
    (schema : MethodSchema) (item : Json) (state : σ) : CallRun σ :=
  match m.requestFor item with
  | .error fault => ⟨state, t.now, .error (.encode fault)⟩
  | .ok body =>
    match schema.request body with
    | .error e => ⟨state, t.now, .error e⟩
    | .ok request =>
      let run := p.send network t m.spec.timeout schema request state
      ⟨run.state, run.finish,
        match run.result with
        | .error stop => .error (stopError m.spec.method m.spec.timeout t stop)
        | .ok response => (schema.value response).map CallOutcome.value⟩

/-- Calls a method for an item with the schema that is attached. -/
def callWith (p : Provider ε) (network : Network ε σ) (t : CallTime) (name : String) (item : Json)
    (a : Attachment) (state : σ) : Attachment × CallRun σ :=
  match p.compiled? name with
  | none => (a, ⟨state, t.now, .error (.methodNotFound p.name name)⟩)
  | some m =>
    match passesFilter t.wall m item with
    | .error cause => (a, ⟨state, t.now, .error (.filter name cause)⟩)
    | .ok false => (a, ⟨state, t.now, .ok .noMatch⟩)
    | .ok true =>
      match a.schemaOf p.name m.spec with
      | (a, .error e) => (a, ⟨state, t.now, .error e⟩)
      | (a, .ok schema) => (a, p.callUsing network t m schema item state)

/-- What can be done with a provider whose schema may be attached at any time. -/
inductive Action where
  | attach (resolve : SchemaResolver)
  /-- Compiles a source text and attaches it. -/
  | attachSource (source : String)
  | call (t : CallTime) (method : String) (item : Json)

/-- What an action answers. -/
inductive Answer (σ : Type) where
  | attached (result : Except ProviderError Unit)
  | called (run : CallRun σ)

/-- What a provider keeps about its schema, and the network. -/
structure Setting (σ : Type) where
  attachment : Attachment
  network : σ

/-- One action. -/
def act (p : Provider ε) (network : Network ε σ) (s : Setting σ) : Action → Setting σ × Answer σ
  | .attach resolve =>
    let (attachment, result) := s.attachment.attach p.methods resolve
    ({ s with attachment }, .attached result)
  | .attachSource source =>
    match Schema.ofSource (p.name ++ ".proto") source with
    | .error fault => (s, .attached (.error (.schema fault)))
    | .ok schema =>
      let (attachment, result) := s.attachment.attach p.methods schema.resolver
      ({ s with attachment }, .attached result)
  | .call t method item =>
    let (attachment, run) := p.callWith network t method item s.attachment s.network
    (⟨attachment, run.state⟩, .called run)

/-- Actions one after the other, with their answers. -/
def actAll (p : Provider ε) (network : Network ε σ) (s : Setting σ) :
    List Action → Setting σ × List (Action × Answer σ)
  | [] => (s, [])
  | action :: rest =>
    let (next, answer) := p.act network s action
    let (last, answers) := p.actAll network next rest
    (last, (action, answer) :: answers)

/-- What is attached as a provider is made: the schema that its description names. -/
def setUp (openFile : String → Option Proto.Bytes) (p : Provider ε) : List Action :=
  match p.spec.schema with
  | none => []
  | some (.inline source) => [.attachSource source]
  | some (.file path) =>
    match Schema.ofFile openFile path with
    | .ok schema => [.attach schema.resolver]
    | .error _ => []

end Provider

end ItemComposition
