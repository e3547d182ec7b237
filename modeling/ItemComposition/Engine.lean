import ItemComposition.Composition
import ItemComposition.Instruction.Reader
import ItemComposition.Provider.Endpoint
import ItemComposition.Provider.Registry

/-!
# Streams of documents

A stream of documents holds instructions and providers. `Engine.read` takes them in one after the
other: instructions are collected, providers are registered, and a provider that is replaced is
closed. The first document that is not in order ends the reading; providers registered before it
stay.
-/

namespace ItemComposition

/-- Why a stream cannot be read. -/
inductive StreamError where
  /-- The text is not well formed. -/
  | malformed
  | document (cause : DocumentError)
  | provider (cause : ProviderError)

/-- The wording of an error. -/
def StreamError.message : StreamError → String
  | malformed => "error parsing YAML: " ++ detail
  | document cause => cause.message
  | provider cause => "error registering provider: " ++ cause.message

/-- The class under which an error is counted. -/
def StreamError.label : StreamError → String
  | malformed | document _ => "parse_error"
  | provider _ => "provider_parse_error"

/-- How providers are made: what they may use, how calls are repeated, and where calls go. -/
structure Engine (ε : Type) where
  surroundings : Surroundings
  retry : RetryPolicy
  connect : ProviderSpec → Except ProviderError ε

/-- What has been read of a stream. -/
structure Reading (ε : Type) where
  registry : Registry ε
  /-- The providers that were closed, in order. -/
  closed : List (Registered ε)
  instructions : List Instruction

namespace Engine

variable {ε : Type}

/-- Makes the provider that a decoded document describes. -/
def provider (engine : Engine ε) (document : Json) : Except ProviderError (Provider ε) := do
  let spec ← ProviderSpec.ofDocument engine.surroundings.environment document
  let endpoint ← engine.connect spec
  Provider.make engine.surroundings.openFile engine.retry endpoint spec

/-- Whether a decoded document describes a provider. -/
def isProvider (document : Json) : Bool :=
  match document.get? "kind" with
  | some (.str kind) => Text.trim kind = ProviderDocument.requiredKind
  | _ => false

/-- Registers a provider and closes the one that it replaces. -/
def register (r : Reading ε) (p : Provider ε) : Reading ε :=
  let registration := r.registry.register p
  { r with
    registry := registration.registry
    closed := r.closed ++ registration.replaced.toList }

/-- Takes in one decoded document. -/
def take (engine : Engine ε) (r : Reading ε) (document : Json) :
    Except StreamError (Reading ε) :=
  -- an empty document adds nothing
  if document.isNull then .ok r
  else if isProvider document then
    match engine.provider document with
    | .ok p => .ok (register r p)
    | .error cause => .error (.provider cause)
  else
    match Instruction.ofDocument document with
    | .ok i => .ok { r with instructions := r.instructions ++ [i] }
    | .error cause => .error (.document cause)

/-- Takes in decoded documents up to the first that is not in order; none stands for one that could
not be decoded. -/
def takeAll (engine : Engine ε) (r : Reading ε) :
    List (Option Json) → Reading ε × Except StreamError Unit
  | [] => (r, .ok ())
  | none :: _ => (r, .error .malformed)
  | some document :: rest =>
    match engine.take r document with
    | .ok next => takeAll engine next rest
    | .error e => (r, .error e)

/-- Reads decoded documents into a registry. -/
def readDocuments (engine : Engine ε) (registry : Registry ε) (documents : List (Option Json)) :
    Reading ε × Except StreamError Unit :=
  takeAll engine ⟨registry, [], []⟩ documents

/-- The decoded documents of a stream. -/
def documents (bytes : List UInt8) : List (Option Json) :=
  (Yaml.Stream.ofBytes bytes).map (·.bind Yaml.Node.toJson?)

/-- Reads a stream into a registry. -/
def read (engine : Engine ε) (registry : Registry ε) (bytes : List UInt8) :
    Reading ε × Except StreamError Unit :=
  readDocuments engine registry (documents bytes)

/-- Connects the service that a description names. -/
def ofServices (surroundings : Surroundings) (retry : RetryPolicy) : Engine Endpoint :=
  ⟨surroundings, retry, Endpoint.ofSpec⟩

/-! ## Composing -/

/-- The network without peers: a call to a usable address finds nobody there. -/
def offline {σ : Type} : Network Endpoint σ := fun endpoint _ _ _ state =>
  let status : Status :=
    if Endpoint.isUsable endpoint.address then ⟨.unavailable, "service was not ready"⟩
    else Endpoint.unusable
  (state, ⟨0, .error status⟩)

/-- The network and the clock during a composition. -/
structure Scene (σ : Type) where
  now : Nat
  network : σ

/-- The monad of compositions that call providers. -/
abbrev Composing (σ : Type) : Type → Type := StateM (Scene σ)

/-- Calls providers of a registry through a network. -/
def caller {σ : Type} (registry : Registry ε) (network : Network ε σ) (cancel : Option Nat)
    (wall : Int) : Caller (Composing σ) := fun provider method item => fun scene =>
  match registry.find provider with
  | .error e => (.error e, scene)
  | .ok p =>
    let run := p.call network ⟨scene.now, cancel, wall⟩ method item scene.network
    (run.result, ⟨run.finish, run.state⟩)

/-- Composes an item with the providers of a registry. -/
def compose {σ : Type} (registry : Registry ε) (network : Network ε σ) (cancel : Option Nat)
    (wall : Int) (s : Subject) (instructions : List Instruction) (scene : Scene σ) :
    Dict Json × Scene σ :=
  Composition.compose (caller registry network cancel wall) s instructions scene

end Engine

end ItemComposition
