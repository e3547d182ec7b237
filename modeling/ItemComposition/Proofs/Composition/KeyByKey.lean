import ItemComposition.Engine
import ItemComposition.Proofs.Composition.Contributions

/-!
# Compositions key by key

A composition calls providers while it goes on, and every call may change the network and takes
time. If the answers themselves do not depend on that, the composed object does not either: it is
the object of the contributions of the selected templates.

## Key results

- `returns_contribution`, `returns_addFields`, `returns_elementValues`: fields of any depth
- `Engine.compose_key_by_key`: what a key of the composed object has
-/

namespace ItemComposition

namespace Composition

variable {σ α β : Type}

/-- An action returns a value in every state. -/
def Returns (action : StateM σ α) (v : α) : Prop := ∀ state, (action state).1 = v

theorem returns_pure (v : α) : Returns (pure v : StateM σ α) v := fun _ => rfl

theorem Returns.bind {action : StateM σ α} {next : α → StateM σ β} {v : α} {w : β}
    (h : Returns action v) (hNext : Returns (next v) w) : Returns (action >>= next) w := by
  intro state
  show (next (action state).1 (action state).2).1 = w
  rw [h state]
  exact hNext _

/-- The calls for an item have the given answers, whatever was called before. -/
def Answered (call : Caller (StateM σ)) (answer : Answers) (item : Json) : Prop :=
  ∀ provider method, Returns (call provider method item) (answer provider method item)

variable {call : Caller (StateM σ)} {answer : Answers} {s : Subject}

theorem returns_pathValue (h : Answered call answer s.item) (target : PathTarget) :
    Returns (pathValue call s target) (pathShare answer s target) := by
  cases target with
  | here path => exact returns_pure _
  | invalid cause => exact returns_pure _
  | provider provider method rest => exact (h provider method).bind (returns_pure _)

mutual

/-- A field contributes its share. -/
theorem returns_contribution (h : Answered call answer s.item) :
    ∀ field : Field, Returns (contribution call s field) (share answer s field)
  | .literal v => returns_pure _
  | .bool b => returns_pure _
  | .interpolated template => returns_pure _
  | .path kind source target => (returns_pathValue h target).bind (returns_pure _)
  | .object fields => by
    -- the fields of an object start from nothing, whatever is there
    rw [contribution, share, ← addAll_nil]
    exact (returns_addFields h fields []).bind (returns_pure _)
  | .array elements => by
    rw [contribution, share]
    exact (returns_elementValues h elements).bind (returns_pure _)
  | .skip reason => returns_pure _

/-- Fields add their shares one after the other. -/
theorem returns_addFields (h : Answered call answer s.item) :
    ∀ (fields : List (String × Field)) (target : Dict Json),
      Returns (addFields call s target fields) (addAll target (shares answer s fields))
  | [], target => returns_pure _
  | (key, field) :: rest, target => by
    rw [addFields, shares]
    refine (returns_contribution h field).bind ?_
    -- a field without a share leaves the target to the next
    cases share answer s field with
    | none => exact returns_addFields h rest target
    | some c => exact returns_addFields h rest (c.addTo target key)

/-- The elements with open gates become the objects of their fields. -/
theorem returns_elementValues (h : Answered call answer s.item) :
    ∀ elements : List Element,
      Returns (elementValues call s elements) (elementObjects answer s elements)
  | [] => returns_pure _
  | .mk condition fields :: rest => by
    rw [elementValues, elementObjects]
    split
    · rw [← addAll_nil]
      exact (returns_addFields h fields []).bind
        ((returns_elementValues h rest).bind (returns_pure _))
    · exact returns_elementValues h rest

end

theorem shares_append (fields more : List (String × Field)) :
    shares answer s (fields ++ more) = shares answer s fields ++ shares answer s more := by
  induction fields with
  | nil => rfl
  | cons f fields ih =>
    rw [List.cons_append, shares, shares]
    split
    · rw [ih, List.cons_append]
    · exact ih

theorem returns_addTemplates (h : Answered call answer s.item) (names : List String)
    (instructions : List Instruction) (target : Dict Json) :
    Returns (addTemplates call s names target instructions)
      (addAll target (shares answer s (instructions.flatMap (fieldsOf names)))) := by
  -- one target goes through all templates, so their shares are one list
  induction instructions generalizing target with
  | nil => exact returns_pure _
  | cons i rest ih =>
    rw [addTemplates, List.flatMap_cons, shares_append, addAll, List.foldl_append]
    exact (returns_addFields h _ target).bind (ih _)

/-- The composed object is the object of what the selected templates contribute. -/
theorem returns_compose (h : Answered call answer s.item) (instructions : List Instruction) :
    Returns (compose call s instructions) (assemble (shares answer s (instructions.flatMap
      (fieldsOf (selected (scopeOf s.item s.context) instructions))))) := by
  rw [← addAll_nil]
  exact returns_addTemplates h _ instructions []

end Composition

namespace Engine

open ItemComposition.Composition

variable {ε σ : Type}

/-- The keys of a composed object ascend. Each has what the fields under it in the selected
templates settle on, in the order of the instructions, and those fields alone decide whether it is
there. The object of a field is put together in the same way; in a union with an object that is
there its keys win and the others stay. -/
theorem compose_key_by_key (registry : Registry ε) (network : Network ε σ) (cancel : Option Nat)
    (wall : Int) (s : Subject) (instructions : List Instruction) (scene : Scene σ)
    (answer : Answers) (answered : Answered (caller registry network cancel wall) answer s.item) :
    let composed := (Engine.compose registry network cancel wall s instructions scene).1
    let names := selected (scopeOf s.item s.context) instructions
    let contributed := shares answer s (instructions.flatMap (fieldsOf names))
    (Dict.Sorted composed ∧ ∀ key,
      Dict.get? composed key = settled (under key contributed) ∧
        (key ∈ Dict.keys composed ↔ under key contributed ≠ [])) ∧
    (∀ field, share answer s field = none ↔
      (∃ reason, field = .skip reason) ∨
        ∃ kind source provider method rest,
          field = .path kind source (.provider provider method rest) ∧
            answer provider method s.item = .ok .noMatch) ∧
    ∀ (existing : Dict Json) (fields : List (String × Field)) (key : String),
      Dict.get? (Dict.union existing (assemble (shares answer s fields))) key =
        (settled (under key (shares answer s fields))).or (Dict.get? existing key) := by
  intro composed names contributed
  have hComposed : composed = assemble contributed := returns_compose answered instructions scene
  refine ⟨⟨?_, fun key => ⟨?_, ?_⟩⟩, share_eq_none_iff answer s, ?_⟩
  · -- the whole is the assembly of what all fields contribute, and a key is settled by its own
    -- share
    rw [hComposed]
    exact sorted_assemble contributed
  · rw [hComposed]
    exact get?_assemble contributed key
  · rw [hComposed]
    exact mem_keys_assemble
  · intro existing fields key
    rw [Dict.get?_union _ _ (sorted_assemble _).nodup, get?_assemble]

/-- Two templates that describe one object, without providers: the second wins where both have a
key. -/
theorem compose_key_by_key_two_templates :
    let view : Instruction := ⟨"", none, [], none, .view ["base", "extra"]⟩
    let base : Instruction := ⟨"", some "base", [], none, .template [("data",
      .object [("name", .literal (.str "John")), ("status", .literal (.str "basic"))])]⟩
    let extra : Instruction := ⟨"", some "extra", [], none, .template [("data",
      .object [("status", .literal (.str "primary"))])]⟩
    let composed := (Engine.compose Registry.empty offline none 0 ⟨.null, .null, []⟩
      [view, base, extra] ⟨0, ()⟩).1
    Dict.get? composed "data" =
      some (.obj [("name", .str "John"), ("status", .str "primary")]) := by
  intro view base extra composed
  have hKeys := compose_key_by_key Registry.empty offline none 0 ⟨.null, .null, []⟩
    [view, base, extra] ⟨0, ()⟩ (fun provider _ _ => .error (.notFound provider)) fun _ _ _ => rfl
  exact (hKeys.1.2 "data").1.trans rfl

end Engine

end ItemComposition
