import ItemComposition.Proofs.Engine.Instructions
import ItemComposition.Proofs.Instruction.Acceptance
import ItemComposition.Proofs.Yaml.LegalValues

/-!
# Fields in key order

An instruction lists its fields in the order in which they take their turns. For one that is read
from a document this is the order of their keys, at every depth: the objects of a decoded document
have ascending keys, and reading them keeps the keys and their order.

## Key results

- `Field.keys_ofMembers`: reading keeps the keys
- `Field.ordered_ofValue`: the fields of a specification at every depth
- `Instruction.ordered_of_ofDocument`, `Engine.ordered_of_mem_instructions`: instructions
-/

namespace ItemComposition

/-- The fields of every object and element come in key order. -/
inductive Field.Ordered : Field → Prop where
  | literal {v : Json} : Ordered (.literal v)
  | path {kind : ScalarKind} {source : String} {target : PathTarget} :
      Ordered (.path kind source target)
  | interpolated {template : String} : Ordered (.interpolated template)
  | bool {b : Bool} : Ordered (.bool b)
  | object {fields : List (String × Field)} (sorted : Dict.Sorted fields)
      (each : ∀ f ∈ fields, Ordered f.2) : Ordered (.object fields)
  | array {elements : List Element} (sorted : ∀ e ∈ elements, Dict.Sorted e.fields)
      (each : ∀ e ∈ elements, ∀ f ∈ e.fields, Ordered f.2) : Ordered (.array elements)
  | skip {reason : SkipReason} : Ordered (.skip reason)

/-- The fields of a template come in key order, at every depth. -/
def Instruction.Ordered (i : Instruction) : Prop :=
  ∀ fields, i.body = .template fields → Dict.Sorted fields ∧ ∀ f ∈ fields, f.2.Ordered

/-- Leaving out entries keeps the keys in order. -/
theorem Dict.Sorted.filter {α : Type} {d : Dict α} (h : Sorted d) (p : String × α → Bool) :
    Sorted (d.filter p) :=
  List.Pairwise.sublist (List.filter_sublist.map _) h

namespace Field

theorem keys_ofMembers (members : List (String × Json)) :
    Dict.keys (ofMembers members) = Dict.keys members := by
  induction members with
  | nil => rw [ofMembers]; rfl
  | cons m rest ih => rw [ofMembers, Dict.keys, List.map_cons, ← Dict.keys, ih]; rfl

theorem sorted_ofMembers {members : Dict Json} (h : Dict.Sorted members) :
    Dict.Sorted (ofMembers members) := by
  rw [Dict.Sorted, keys_ofMembers]
  exact h

theorem ordered_ofStringSpec (spec : Dict Json) : (ofStringSpec spec).Ordered := by
  unfold ofStringSpec
  split <;> constructor

theorem ordered_ofNumberSpec (spec : Dict Json) : (ofNumberSpec spec).Ordered := by
  unfold ofNumberSpec
  split <;> constructor

theorem ordered_ofBoolSpec (spec : Dict Json) : (ofBoolSpec spec).Ordered := by
  unfold ofBoolSpec
  split <;> constructor

/-- A part of a legal object is legal. -/
theorem legal_of_get? {spec : Dict Json} (h : (Json.obj spec).Legal) {key : String} {v : Json}
    (hGet : Dict.get? spec key = some v) : v.Legal := by
  cases h with
  | obj sorted each => exact each _ ((Dict.get?_eq_some_iff sorted).1 hGet)

mutual

/-- A field that is read from a legal value has its fields in key order. -/
theorem ordered_ofValue : ∀ (v : Json), v.Legal → (ofValue v).Ordered
  | .obj spec, h => by
    rw [ofValue]
    exact ordered_ofSpec spec h
  | .null, _ | .bool _, _ | .num _, _ | .str _, _ | .arr _, _ => by
    rw [ofValue]
    · exact .literal
    · nofun
termination_by v => (sizeOf v, 0)

theorem ordered_ofSpec (spec : Dict Json) (h : (Json.obj spec).Legal) : (ofSpec spec).Ordered := by
  rw [ofSpec]
  split
  · exact ordered_ofObjectSpec spec h
  split
  · exact ordered_ofStringSpec spec
  · exact ordered_ofNumberSpec spec
  · exact ordered_ofBoolSpec spec
  · split
    · rename_i elements hGet
      -- the elements of an array specification are smaller than it
      have : sizeOf elements < sizeOf spec := by
        have := Dict.sizeOf_lt_of_get? hGet
        rw [Json.arr.sizeOf_spec] at this
        omega
      cases legal_of_get? h hGet with
      | arr each =>
        have hElements := ordered_ofElements elements each
        exact .array (fun e he => (hElements e he).1) fun e he => (hElements e he).2
    · exact .skip
  · exact ordered_ofObjectSpec spec h
  · exact .literal
termination_by (sizeOf spec, 1)

theorem ordered_ofObjectSpec (spec : Dict Json) (h : (Json.obj spec).Legal) :
    (ofObjectSpec spec).Ordered := by
  rw [ofObjectSpec]
  split
  · rename_i fields hGet
    have : sizeOf fields < sizeOf spec := by
      have := Dict.sizeOf_lt_of_get? hGet
      rw [Json.obj.sizeOf_spec] at this
      omega
    cases legal_of_get? h hGet with
    | obj sorted each => exact .object (sorted_ofMembers sorted) (ordered_ofMembers fields each)
  · exact .literal
termination_by (sizeOf spec, 0)

theorem ordered_ofMembers : ∀ (members : List (String × Json)), (∀ m ∈ members, m.2.Legal) →
    ∀ f ∈ ofMembers members, f.2.Ordered
  | [], _ => by
    rw [ofMembers]
    nofun
  | (key, v) :: rest, h => by
    obtain ⟨hFirst, hRest⟩ := List.forall_mem_cons.1 h
    rw [ofMembers]
    exact List.forall_mem_cons.2 ⟨ordered_ofValue v hFirst, ordered_ofMembers rest hRest⟩
termination_by members => (sizeOf members, 0)

/-- The key of its condition is no field of an element. -/
theorem ordered_ofElements : ∀ (elements : List Json), (∀ v ∈ elements, v.Legal) →
    ∀ e ∈ ofElements elements, Dict.Sorted e.fields ∧ ∀ f ∈ e.fields, f.2.Ordered
  | [], _ => by
    rw [ofElements]
    nofun
  | .obj element :: rest, h => by
    obtain ⟨hFirst, hRest⟩ := List.forall_mem_cons.1 h
    rw [ofElements]
    refine List.forall_mem_cons.2 ⟨?_, ordered_ofElements rest hRest⟩
    cases hFirst with
    | obj sorted each =>
      exact ⟨(sorted_ofMembers sorted).filter _, fun f hf =>
        ordered_ofMembers element each f (List.mem_of_mem_filter hf)⟩
  | .null :: rest, h | .bool _ :: rest, h | .num _ :: rest, h | .str _ :: rest, h
  | .arr _ :: rest, h => by
    -- only an object is an element
    rw [ofElements]
    · exact ordered_ofElements rest (List.forall_mem_cons.1 h).2
    · nofun
termination_by elements => (sizeOf elements, 0)

end

end Field

namespace Instruction

theorem legal_of_optionalObject {part : Option Json} {members : Dict Json}
    (legal : ∀ v ∈ part, v.Legal) (h : optionalObject part = .ok members) :
    (Json.obj members).Legal := by
  unfold optionalObject at h
  split at h
  · cases h
    exact .obj Dict.sorted_nil nofun
  · cases h
    exact .obj Dict.sorted_nil nofun
  · cases h
    exact legal _ rfl
  · cases h

/-- The specification in a legal document is legal, be it a member or an item. -/
theorem legal_spec {document : Json} {e : Envelope} (legal : document.Legal)
    (h : Envelope.read document = .ok e) : (Json.obj e.spec).Legal := by
  -- a document gives its four parts by key or by place, and is read the same from there on
  have hParts : ∀ kind version metadata spec : Option Json, (∀ v ∈ spec, v.Legal) → (do
      let kind ← optionalText kind
      let version ← optionalText version
      let metadata ← optionalObject metadata
      let spec ← optionalObject spec
      return Envelope.mk kind version metadata spec) = .ok e → (Json.obj e.spec).Legal := by
    intro kind version metadata spec hLegal hRead
    simp only [bind_eq_ok_iff] at hRead
    obtain ⟨k, -, v, -, m, -, s, hSpec, hEnvelope⟩ := hRead
    cases hEnvelope
    exact legal_of_optionalObject hLegal hSpec
  cases legal with
  | null | bool | num | str => cases h
  | obj sorted each =>
    exact hParts _ _ _ _ (fun v hv => each _ ((Dict.get?_eq_some_iff sorted).1 hv)) h
  | arr each =>
    rw [Envelope.read] at h
    split at h
    · cases h
    · exact hParts _ _ _ _ (fun v hv => each v (List.mem_of_getElem? hv)) h

/-- An instruction that is read from a legal document has its fields in key order. -/
theorem ordered_of_ofDocument {document : Json} {i : Instruction} (legal : document.Legal)
    (h : ofDocument document = .ok i) : i.Ordered := by
  obtain ⟨e, hRead, h⟩ := bind_eq_ok_iff.1 h
  obtain ⟨kind, -, h⟩ := bind_eq_ok_iff.1 h
  cases h
  intro fields hBody
  cases kind with
  | view => cases hBody
  | template =>
    obtain rfl := Body.template.inj hBody
    cases legal_spec legal hRead with
    | obj sorted each =>
      exact ⟨(Field.sorted_ofMembers sorted).filter _, fun f hf =>
        Field.ordered_ofMembers e.spec each f (List.mem_of_mem_filter hf)⟩

end Instruction

theorem exists_mem_of_forall₂ {α β : Type} {r : α → β → Prop} {xs : List α} {ys : List β}
    (h : List.Forall₂ r xs ys) {y : β} (hy : y ∈ ys) : ∃ x ∈ xs, r x y := by
  induction h with
  | nil => cases hy
  | cons hFirst _ ih =>
    rcases List.mem_cons.1 hy with rfl | hy
    · exact ⟨_, List.mem_cons_self, hFirst⟩
    · obtain ⟨x, hx, hr⟩ := ih hy
      exact ⟨x, List.mem_cons_of_mem _ hx, hr⟩

/-- The instructions of a stream have their fields in key order. -/
theorem Engine.ordered_of_mem_instructions {ε : Type} {engine : Engine ε} {registry : Registry ε}
    {bytes : List UInt8} {is : List Instruction}
    (h : engine.outcome registry (documents bytes) = .ok is) : ∀ i ∈ is, i.Ordered := by
  rw [outcome_eq_collect] at h
  intro i hi
  obtain ⟨document, hDocument, hOf⟩ := exists_mem_of_forall₂ (forall₂_of_collect h) hi
  have hLegal := legal_of_mem_documents
    (List.reduceOption_mem_iff.1 (List.mem_of_mem_filter hDocument))
  exact Instruction.ordered_of_ofDocument hLegal hOf

end ItemComposition
