import ItemComposition.Proofs.Composition.Visits
import ItemComposition.Proofs.Instruction.KeyOrder

/-!
# The calls that a composition makes

A composition calls methods of registered providers while it goes through the fields. Calls that are
recorded show that there is one for each place it comes to, in the order of the places, and nothing
else: what a provider answers decides what a field contributes, and not what is called after it.

## Key results

- `Appends.bind`: if no value decides on the calls that follow, the calls are known beforehand
- `appends_contribution`, `appends_addFields`, `appends_elementValues`: fields of any depth
- `appends_compose`: the calls of a composition in any monad
- `Engine.compose_calls`: the calls, their order, and what they do not depend on
-/

namespace ItemComposition

/-- How a provider executes its methods. -/
abbrev Execution (m : Type → Type) : Type :=
  (method : String) → (item : Json) → m (Except ProviderError CallOutcome)

/-- The registered providers, by name. -/
abbrev Providers (m : Type → Type) : Type := String → Option (Execution m)

namespace Providers

variable {m : Type → Type} [Monad m]

/-- Calls providers by name; a name that is not registered is an error. -/
def caller (providers : Providers m) : Caller m := fun provider method item =>
  match providers provider with
  | some execute => execute method item
  | none => pure (.error (.notFound provider))

/-- The providers, each of which writes down the calls that it gets. -/
def recorded (providers : Providers m) : Providers (StateT (List MethodCall) m) := fun provider =>
  (providers provider).map fun execute method item calls => do
    let answer ← execute method item
    return (answer, calls ++ [⟨provider, method, item⟩])

/-- Whether a name is registered. -/
def has (providers : Providers m) (provider : String) : Bool := (providers provider).isSome

end Providers

namespace Composition

section Appends

variable {m : Type → Type} [Monad m] {α β : Type}

/-- An action with a record does what another does without, and adds given calls to the record. -/
def Appends (traced : StateT (List MethodCall) m α) (plain : m α) (calls : List MethodCall) :
    Prop :=
  ∀ before, traced.run before = (fun v => (v, before ++ calls)) <$> plain

variable [LawfulMonad m]

theorem appends_pure (v : α) : Appends (pure v : StateT (List MethodCall) m α) (pure v) [] := by
  intro before
  rw [StateT.run_pure, map_pure, List.append_nil]

/-- The calls of two actions come one after the other, if those of the second do not depend on what
the first returns. -/
theorem Appends.bind {traced : StateT (List MethodCall) m α} {plain : m α}
    {tracedNext : α → StateT (List MethodCall) m β} {plainNext : α → m β}
    {calls more : List MethodCall} (h : Appends traced plain calls)
    (hNext : ∀ v, Appends (tracedNext v) (plainNext v) more) :
    Appends (traced >>= tracedNext) (plain >>= plainNext) (calls ++ more) := by
  intro before
  rw [StateT.run_bind, h before, bind_map_left, map_bind]
  congr 1
  funext v
  rw [← List.append_assoc]
  exact hNext v (before ++ calls)

/-- What is done with a value after an action makes no calls. -/
theorem Appends.map {traced : StateT (List MethodCall) m α} {plain : m α} {calls : List MethodCall}
    (h : Appends traced plain calls) (f : α → β) :
    Appends (do let v ← traced; return f v) (do let v ← plain; return f v) calls := by
  rw [← List.append_nil calls]
  exact h.bind fun v => appends_pure (f v)

end Appends

section Fields

variable {m : Type → Type} [Monad m] [LawfulMonad m] (providers : Providers m) (s : Subject)

/-- A registered provider writes down its call, and there is none for a name that is not
registered. -/
theorem appends_caller (provider method : String) (item : Json) :
    Appends (providers.recorded.caller provider method item) (providers.caller provider method item)
      (if providers.has provider then [⟨provider, method, item⟩] else []) := by
  unfold Providers.caller Providers.recorded Providers.has
  cases providers provider with
  | none => exact appends_pure _
  | some execute =>
    intro before
    exact bind_pure_comp _ _

/-- The calls of visits. -/
def calls (vs : List Visit) : List MethodCall := vs.map Prod.snd

theorem calls_numbered_cons (n : Nat) (vs : List Visit) (trees : List (List Visit)) :
    calls (numbered n (vs :: trees)) = calls vs ++ calls (numbered 0 trees) := by
  rw [calls, calls, calls, map_snd_numbered, map_snd_numbered, List.flatMap_cons]

mutual

/-- A field makes the calls of its visits. -/
theorem appends_contribution : ∀ field : Field,
    Appends (contribution providers.recorded.caller s field) (contribution providers.caller s field)
      (calls (fieldVisits providers.has s field))
  | .literal v => appends_pure _
  | .bool b => appends_pure _
  | .interpolated template => appends_pure _
  | .skip reason => appends_pure _
  | .path kind source (.here path) => (appends_pure _).map _
  | .path kind source (.invalid cause) => (appends_pure _).map _
  | .path kind source (.provider provider method rest) => by
    -- the answer decides on the value alone
    have hCaller := appends_caller providers provider method s.item
    rw [fieldVisits, calls, apply_ite (List.map Prod.snd)]
    exact (hCaller.map _).map _
  | .object fields => (appends_addFields fields []).map _
  | .array elements => (appends_elementValues elements).map _

theorem appends_addFields : ∀ (fields : List (String × Field)) (target : Dict Json),
    Appends (addFields providers.recorded.caller s target fields)
      (addFields providers.caller s target fields)
      (calls (numbered 0 (eachField providers.has s fields)))
  | [], target => appends_pure _
  | (key, field) :: rest, target => by
    rw [eachField, calls_numbered_cons]
    refine (appends_contribution field).bind fun c => ?_
    -- whatever the field contributes, the same fields follow
    cases c with
    | none => exact appends_addFields rest target
    | some c => exact appends_addFields rest (c.addTo target key)

theorem appends_elementValues : ∀ elements : List Element,
    Appends (elementValues providers.recorded.caller s elements)
      (elementValues providers.caller s elements)
      (calls (numbered 0 (eachElement providers.has s elements)))
  | [] => appends_pure _
  | .mk condition fields :: rest => by
    rw [eachElement, calls_numbered_cons, elementValues, elementValues]
    split
    · exact (appends_addFields fields []).bind fun members =>
        (appends_elementValues rest).map _
    · exact appends_elementValues rest

end

/-- The calls of a composition are those of its visits. -/
theorem appends_compose (instructions : List Instruction) :
    Appends (compose providers.recorded.caller s instructions)
      (compose providers.caller s instructions) (calls (visits providers.has s instructions)) := by
  have hFields (names : List String) :
      calls (numbered 0 (eachField providers.has s (instructions.flatMap (fieldsOf names)))) =
        calls (numbered 0 (instructions.map fun i =>
          numbered 0 (eachField providers.has s (fieldsOf names i)))) := by
    simp only [calls, map_snd_numbered, eachField_eq, List.flatMap_map, List.flatMap_assoc]
  rw [compose_eq_addFields, compose_eq_addFields, visits, ← hFields]
  exact appends_addFields providers s _ []

end Fields

end Composition

namespace Engine

open ItemComposition.Composition

variable {ε σ τ : Type}

/-- How the providers of a registry execute their methods. -/
def executions (registry : Registry ε) (network : Network ε σ) (cancel : Option Nat) (wall : Int) :
    Providers (Composing σ) := fun provider =>
  (registry.get? provider).map fun entry method item scene =>
    let run := entry.provider.call network ⟨scene.now, cancel, wall⟩ method item scene.network
    (run.result, ⟨run.finish, run.state⟩)

/-- A composition calls the providers of its registry. -/
theorem caller_executions (registry : Registry ε) (network : Network ε σ) (cancel : Option Nat)
    (wall : Int) :
    (executions registry network cancel wall).caller = caller registry network cancel wall := by
  funext provider method item scene
  unfold Providers.caller executions caller Registry.find
  cases registry.get? provider <;> rfl

/-- Whatever the registered providers do, a composition makes one call for each place that it comes
to, in the order of the places, which is that of the instructions, fields and elements. The places
are those of paths to methods of registered providers in selected templates, which no element with
a closed gate hides, and each call is for the whole item. Recording the calls changes nothing. Other
providers under the same names, with other answers, get the same calls. The providers of a registry
are such providers, and instructions that are read from a stream have their fields in key order. -/
theorem compose_calls (providers : Providers (StateM τ)) (s : Subject)
    (instructions : List Instruction) (state : τ) :
    let traced := (Composition.compose providers.recorded.caller s instructions).run [] state
    let visits := visits providers.has s instructions
    (traced.1.1, traced.2) = Composition.compose providers.caller s instructions state ∧
    traced.1.2 = visits.map Prod.snd ∧
    (visits.Pairwise fun v w => v.1 < w.1) ∧
    (∀ place call, (place, call) ∈ visits ↔ Called providers.has s instructions place call) ∧
    (∀ (others : Providers (StateM σ)) (state' : σ), others.has = providers.has →
      ((Composition.compose others.recorded.caller s instructions).run [] state').1.2 =
        traced.1.2) ∧
    (∀ (registry : Registry ε) (network : Network ε σ) (cancel : Option Nat) (wall : Int),
      (executions registry network cancel wall).caller = caller registry network cancel wall ∧
      ∀ name, (executions registry network cancel wall).has name = (registry.get? name).isSome) ∧
    ∀ (engine : Engine ε) (registry : Registry ε) (bytes : List UInt8) (is : List Instruction),
      engine.outcome registry (documents bytes) = .ok is → ∀ i ∈ is, i.Ordered := by
  intro traced visits
  have hTraced : traced = _ := congrFun (appends_compose providers s instructions []) state
  refine ⟨?_, ?_, ascending_visits, fun _ _ => mem_visits_iff, fun others state' hNames => ?_,
    fun registry network cancel wall => ⟨caller_executions registry network cancel wall, fun name =>
      Option.isSome_map⟩,
    fun engine registry bytes is => ordered_of_mem_instructions⟩
  · -- that calls are recorded shows in the log only, and the log is made of the visits
    rw [hTraced]
    rfl
  · rw [hTraced]
    rfl
  · -- the visits depend on the providers by their names alone
    rw [appends_compose others s instructions [], hTraced, hNames]
    rfl

/-- Paths in a template that is not selected, in an object, to an unknown provider, in an element
that is left out and in one that is not. Two of them are called, in their order, whatever the
answers. -/
theorem compose_calls_five_paths :
    let cards (answer : Except ProviderError CallOutcome) : Providers (StateM Unit) := fun name =>
      if name = "cards" then some fun _ _ => pure answer else none
    let path (provider method : String) : Field :=
      .path .string "" (.provider provider method (.ident "item"))
    let shut : Condition := ⟨"no", .error (.notBoolean .null)⟩
    let instructions : List Instruction :=
      [⟨"", some "page", [], none, .template [("top", path "cards" "page")]⟩,
        ⟨"", some "card", [], none, .template [("body", .object [("deep", path "cards" "find")]),
          ("kin", path "ghosts" "find"), ("list", .array [.mk (some shut) [("a", path "cards" "hide")],
            .mk none [("b", path "cards" "count")]])]⟩,
        ⟨"", none, [], none, .view ["card"]⟩]
    let traced (answer : Except ProviderError CallOutcome) :=
      (Composition.compose (cards answer).recorded.caller ⟨.str "p1", .null, []⟩ instructions).run []
        ()
    ∀ answer, (traced answer).1.2 =
      [⟨"cards", "find", .str "p1"⟩, ⟨"cards", "count", .str "p1"⟩] := by
  intro cards path shut instructions traced answer
  -- evaluated for one answer; the theorem carries it to every other one
  have hNoMatch : (traced (.ok .noMatch)).1.2 =
      [⟨"cards", "find", .str "p1"⟩, ⟨"cards", "count", .str "p1"⟩] := rfl
  have hNames : (cards answer).has = (cards (.ok .noMatch)).has := by
    funext name
    unfold Providers.has
    by_cases hName : name = "cards" <;> simp [cards, hName]
  obtain ⟨-, -, -, -, hSame, -⟩ :=
    @compose_calls Unit Unit Unit (cards (.ok .noMatch)) ⟨.str "p1", .null, []⟩ instructions ()
  exact (hSame (cards answer) () hNames).trans hNoMatch

end Engine

end ItemComposition
