import ItemComposition.Provider.Basic

/-!
# Calls of providers

A call of a method passes a filter, builds a request from the item, and sends it until there is an
answer, up to the method's timeout or a cancellation. `Provider.call` says what a call does to the
network and when it ends.
-/

namespace ItemComposition

/-- What a call yields when nothing goes wrong. -/
inductive CallOutcome where
  | value (v : Json)
  /-- The method's filter does not match the item. -/
  | noMatch

/-- The network: how a request to an endpoint is answered at a given time in milliseconds. -/
abbrev Network (ε σ : Type) : Type :=
  ε → MethodSchema → Proto.Message → (now : Nat) → σ → σ × Reply Proto.Message

/-- When a call takes place. -/
structure CallTime where
  /-- Milliseconds on the clock of timeouts. -/
  now : Nat
  /-- When the call is cancelled, on the same clock. -/
  cancel : Option Nat
  /-- Seconds since 1970, for filters. -/
  wall : Int

/-- A network after a call, and when and how the call ended. -/
structure CallRun (σ : Type) where
  state : σ
  finish : Nat
  result : Except ProviderError CallOutcome

/-- The error that a run without a timeout ends with; only a cancellation cuts it off. -/
def RetryStop.error : RetryStop → ProviderError
  | terminal status => .call status
  | exhausted attempts status => .retriesExhausted attempts status
  | cut => .cancelled

namespace CallTime

/-- Whether the call is cancelled before it starts. -/
def isCancelled (t : CallTime) : Bool :=
  match t.cancel with
  | some c => c ≤ t.now
  | none => false

end CallTime

/-- The environment of filters: the item, the time, and the lengths of spans in seconds. -/
def filterScope (wall : Int) (item : Json) : Json :=
  .obj [
    (PathTarget.itemName, item),
    ("time", Json.object [
      ("Now", .int wall), ("Second", .int 1), ("Minute", .int 60), ("Hour", .int 3600),
      ("Day", .int 86400)])]

namespace Provider

variable {ε σ : Type}

/-- Whether a method takes an item. -/
def passesFilter (wall : Int) (m : CompiledMethod) (item : Json) : Except ExprError Bool :=
  match m.filter with
  | some e => e.root.evalCondition (filterScope wall item)
  | none => .ok true

/-- What is sent for an item: nothing if the filter does not match, else the request. -/
def prepare (p : Provider ε) (wall : Int) (name : String) (item : Json) :
    Except ProviderError (Option (CompiledMethod × MethodSchema × Proto.Message)) :=
  match p.compiled? name with
  | none => .error (.methodNotFound p.name name)
  | some m =>
    match passesFilter wall m item with
    | .error cause => .error (.filter name cause)
    | .ok false => .ok none
    | .ok true =>
      match p.schemaOf m with
      | .error e => .error e
      | .ok schema =>
        match m.requestFor item with
        | .error fault => .error (.encode fault)
        | .ok v =>
          match schema.request v with
          | .error e => .error e
          | .ok request => .ok (some (m, schema, request))

/-- When a call is cut off: at the end of its timeout or when it is cancelled. -/
def cutoff (timeout : Nat) (t : CallTime) : Nat :=
  let deadline := t.now + RetryPolicy.pauseMillis timeout
  min deadline (t.cancel.getD deadline)

/-- Why a call is cut off. A timeout that ends as the call is cancelled comes first. -/
def cutoffError (name : String) (timeout : Nat) (t : CallTime) : ProviderError :=
  if t.isCancelled then .cancelled
  else
    match t.cancel with
    | some c =>
      if c < t.now + RetryPolicy.pauseMillis timeout then .cancelled else .timeout name timeout
    | none => .timeout name timeout

/-- The error that a run without success ends with. -/
def stopError (name : String) (timeout : Nat) (t : CallTime) : RetryStop → ProviderError
  | .terminal status => .call status
  | .exhausted attempts status => .retriesExhausted attempts status
  | .cut => cutoffError name timeout t

/-- Sends a request until there is an answer. -/
def send (p : Provider ε) (network : Network ε σ) (t : CallTime) (timeout : Nat)
    (schema : MethodSchema) (request : Proto.Message) (state : σ) : RetryRun σ Proto.Message :=
  if t.isCancelled then RetryPolicy.cancelledRun state t.now
  else
    p.retry.run (some (cutoff timeout t))
      (fun state _ now => network p.endpoint schema request now state) state t.now

/-- Calls a method for an item. -/
def call (p : Provider ε) (network : Network ε σ) (t : CallTime) (name : String) (item : Json)
    (state : σ) : CallRun σ :=
  match p.prepare t.wall name item with
  | .error e => ⟨state, t.now, .error e⟩
  | .ok none => ⟨state, t.now, .ok .noMatch⟩
  | .ok (some (m, schema, request)) =>
    let run := p.send network t m.spec.timeout schema request state
    ⟨run.state, run.finish,
      match run.result with
      | .error stop => .error (stopError name m.spec.timeout t stop)
      | .ok response => (schema.value response).map CallOutcome.value⟩

end Provider

end ItemComposition
