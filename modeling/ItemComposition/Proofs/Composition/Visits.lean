import ItemComposition.Proofs.Composition.Isolation
import ItemComposition.Proofs.Composition.Selection

/-!
# Where a composition calls providers

The fields of the selected templates form a tree. Some of its leaves are paths to methods of
providers, and a composition comes to those of them that no closed element hides. The tree says
where they are, and in which order they come; the answers of the providers do not matter for that.

## Key results

- `Field.induction`: induction over fields, through objects and elements
- `visits`: the calls of a composition with their places
- `ascending_visits`: the places ascend, so none comes twice
- `mem_visits_iff`: the places are those of paths to registered providers that can be reached
-/

namespace ItemComposition

/-- Induction over fields: one in an object or in an element comes before the object or the list. -/
@[elab_as_elim]
theorem Field.induction {motive : Field → Prop}
    (literal : ∀ v, motive (.literal v))
    (path : ∀ kind source target, motive (.path kind source target))
    (interpolated : ∀ template, motive (.interpolated template))
    (bool : ∀ b, motive (.bool b))
    (object : ∀ fields : List (String × Field), (∀ f ∈ fields, motive f.2) →
      motive (.object fields))
    (array : ∀ elements : List Element, (∀ e ∈ elements, ∀ f ∈ e.fields, motive f.2) →
      motive (.array elements))
    (skip : ∀ reason, motive (.skip reason)) (field : Field) : motive field :=
  match field with
  | .literal v => literal v
  | .path kind source target => path kind source target
  | .interpolated template => interpolated template
  | .bool b => bool b
  | .object fields => object fields fun f hf =>
    -- a member of the object is smaller than the object
    have : sizeOf f.2 < sizeOf fields := by
      obtain ⟨key, field⟩ := f
      have := List.sizeOf_lt_of_mem hf
      simp only [Prod.mk.sizeOf_spec] at this
      show sizeOf field < sizeOf fields
      omega
    Field.induction literal path interpolated bool object array skip f.2
  | .array elements => array elements fun e he f hf =>
    have : sizeOf f.2 < sizeOf elements := by
      obtain ⟨condition, fields⟩ := e
      obtain ⟨key, field⟩ := f
      have hElement := List.sizeOf_lt_of_mem he
      have hField := List.sizeOf_lt_of_mem (show (key, field) ∈ fields from hf)
      simp only [Element.mk.sizeOf_spec, Prod.mk.sizeOf_spec] at hElement hField
      show sizeOf field < sizeOf elements
      omega
    Field.induction literal path interpolated bool object array skip f.2
  | .skip reason => skip reason
termination_by sizeOf field

/-- A call of a method of a provider for an item. -/
structure MethodCall where
  provider : String
  method : String
  item : Json

namespace Composition

/-- A call and the place of the field that it is made for. -/
abbrev Visit : Type := Place × MethodCall

/-- Visits of several trees, whose places begin with the numbers of the trees from `n` on. -/
def numbered (n : Nat) : List (List Visit) → List Visit
  | [] => []
  | vs :: rest => vs.map (fun v => (n :: v.1, v.2)) ++ numbered (n + 1) rest

section Visits

variable (registered : String → Bool) (s : Subject)

mutual

/-- The visits of a field: the place of a path to a registered provider is the end of the way. -/
def fieldVisits : Field → List Visit
  | .path _ _ (.provider provider method _) =>
    if registered provider then [([], ⟨provider, method, s.item⟩)] else []
  | .object fields => numbered 0 (eachField fields)
  | .array elements => numbered 0 (eachElement elements)
  | _ => []

/-- The visits of each field. -/
def eachField : List (String × Field) → List (List Visit)
  | [] => []
  | (_, field) :: rest => fieldVisits field :: eachField rest

/-- The visits of each element: none if its condition does not hold. -/
def eachElement : List Element → List (List Visit)
  | [] => []
  | .mk condition fields :: rest =>
    (if Condition.opens (scopeOf s.item s.context) condition then numbered 0 (eachField fields)
      else []) :: eachElement rest

end

/-- The visits of a composition. -/
def visits (instructions : List Instruction) : List Visit :=
  let names := selected (scopeOf s.item s.context) instructions
  numbered 0 (instructions.map fun i => numbered 0 (eachField registered s (fieldsOf names i)))

/-- The visits of an element: none if its condition does not hold. -/
def elementVisits (e : Element) : List Visit :=
  if Condition.opens (scopeOf s.item s.context) e.condition then
    numbered 0 (e.fields.map (fieldVisits registered s ·.2))
  else []

theorem eachField_eq (fields : List (String × Field)) :
    eachField registered s fields = fields.map (fieldVisits registered s ·.2) := by
  induction fields with
  | nil => rfl
  | cons f rest ih => rw [eachField, ih, List.map_cons]

theorem eachElement_eq (elements : List Element) :
    eachElement registered s elements = elements.map (elementVisits registered s) := by
  induction elements with
  | nil => rfl
  | cons e rest ih =>
    obtain ⟨condition, fields⟩ := e
    rw [eachElement, ih, List.map_cons, elementVisits, ← eachField_eq]
    rfl

theorem fieldVisits_object (fields : List (String × Field)) :
    fieldVisits registered s (.object fields) =
      numbered 0 (fields.map (fieldVisits registered s ·.2)) := by
  rw [fieldVisits, eachField_eq]

theorem fieldVisits_array (elements : List Element) :
    fieldVisits registered s (.array elements) =
      numbered 0 (elements.map (elementVisits registered s)) := by
  rw [fieldVisits, eachElement_eq]

end Visits

/-! ## Numbered trees -/

theorem map_snd_numbered (n : Nat) (trees : List (List Visit)) :
    (numbered n trees).map Prod.snd = trees.flatMap (·.map Prod.snd) := by
  induction trees generalizing n with
  | nil => rfl
  | cons vs rest ih =>
    rw [numbered, List.map_append, ih, List.map_map, List.flatMap_cons]
    rfl

theorem mem_numbered {n : Nat} {trees : List (List Visit)} {place : Place} {call : MethodCall} :
    (place, call) ∈ numbered n trees ↔
      ∃ k rest vs, place = (n + k) :: rest ∧ trees[k]? = some vs ∧ (rest, call) ∈ vs := by
  induction trees generalizing n with
  | nil => simp [numbered]
  | cons vs trees ih =>
    rw [numbered, List.mem_append, ih, List.mem_map]
    constructor
    · -- the first tree has number n, and the others count from n + 1
      rintro (⟨⟨rest, _⟩, hMem, hPlace⟩ | ⟨k, rest, ws, rfl, hTree, hMem⟩)
      · obtain ⟨rfl, rfl⟩ := Prod.mk.inj hPlace
        exact ⟨0, rest, vs, rfl, rfl, hMem⟩
      · exact ⟨k + 1, rest, ws, by rw [Nat.add_right_comm, Nat.add_assoc], hTree, hMem⟩
    · rintro ⟨k, rest, ws, rfl, hTree, hMem⟩
      cases k with
      | zero =>
        obtain rfl : vs = ws := Option.some.inj hTree
        exact .inl ⟨(rest, call), hMem, rfl⟩
      | succ k => exact .inr ⟨k, rest, ws, by rw [Nat.add_right_comm, Nat.add_assoc], hTree, hMem⟩

/-- A list of trees of their own numbers: what is at a place is in the tree of its first number. -/
theorem mem_numbered_map {α : Type} {f : α → List Visit} {l : List α} {place : Place}
    {call : MethodCall} : (place, call) ∈ numbered 0 (l.map f) ↔
      ∃ k rest x, place = k :: rest ∧ l[k]? = some x ∧ (rest, call) ∈ f x := by
  rw [mem_numbered]
  simp only [Nat.zero_add, List.getElem?_map, Option.map_eq_some_iff]
  constructor
  · rintro ⟨k, rest, _, hPlace, ⟨x, hx, rfl⟩, hMem⟩
    exact ⟨k, rest, x, hPlace, hx, hMem⟩
  · rintro ⟨k, rest, x, hPlace, hx, hMem⟩
    exact ⟨k, rest, _, hPlace, ⟨x, hx, rfl⟩, hMem⟩

/-- The places ascend in lexicographic order. -/
def Ascending (vs : List Visit) : Prop := vs.Pairwise fun v w => v.1 < w.1

theorem ascending_numbered {trees : List (List Visit)} (h : ∀ vs ∈ trees, Ascending vs) (n : Nat) :
    Ascending (numbered n trees) := by
  induction trees generalizing n with
  | nil => exact .nil
  | cons vs trees ih =>
    have hFirst : Ascending (vs.map fun v => (n :: v.1, v.2)) :=
      List.pairwise_map.2 ((h vs List.mem_cons_self).imp List.cons_lt_cons_self.2)
    refine List.pairwise_append.2
      ⟨hFirst, ih (fun ws hws => h ws (List.mem_cons_of_mem _ hws)) (n + 1), ?_⟩
    -- of two trees the first has the smaller number
    rintro v hv ⟨place, call⟩ hw
    obtain ⟨v, -, rfl⟩ := List.mem_map.1 hv
    obtain ⟨k, rest, ws, rfl, -⟩ := mem_numbered.1 hw
    exact List.Lex.rel (show n < n + 1 + k by omega)

variable {registered : String → Bool} {s : Subject} {instructions : List Instruction}

/-- Trees one after the other are in order if each is. -/
theorem ascending_numbered_map {α : Type} {f : α → List Visit} {l : List α}
    (h : ∀ x ∈ l, Ascending (f x)) : Ascending (numbered 0 (l.map f)) :=
  ascending_numbered (List.forall_mem_map.2 h) 0

theorem ascending_fieldVisits (field : Field) : Ascending (fieldVisits registered s field) := by
  induction field using Field.induction with
  | literal | interpolated | bool | skip => exact .nil
  | path kind source target =>
    cases target with
    | here | invalid => exact .nil
    | provider provider method rest =>
      -- an unknown provider is not asked
      rw [fieldVisits]
      split
      · exact List.pairwise_singleton _ _
      · exact .nil
  | object fields ih =>
    rw [fieldVisits_object]
    exact ascending_numbered_map ih
  | array elements ih =>
    rw [fieldVisits_array]
    refine ascending_numbered_map fun e he => ?_
    -- an element whose condition does not hold has no visits
    rw [elementVisits]
    split
    · exact ascending_numbered_map (ih e he)
    · exact .nil

/-- A composition goes through the fields in the order of their places, to no place twice. -/
theorem ascending_visits : Ascending (visits registered s instructions) := by
  refine ascending_numbered_map fun i _ => ?_
  rw [eachField_eq]
  exact ascending_numbered_map fun f _ => ascending_fieldVisits f.2

/-! ## Places that can be reached -/

/-- From a field there is a way to a path to a method: through objects, and through elements whose
conditions hold. -/
inductive Leads (env : Json) : Field → Place → (provider method : String) → Prop where
  | path {kind : ScalarKind} {source provider method : String} {rest : Expr} :
      Leads env (.path kind source (.provider provider method rest)) [] provider method
  | object {fields : List (String × Field)} {n : Nat} {key : String} {field : Field} {place : Place}
      {provider method : String} (member : fields[n]? = some (key, field))
      (leads : Leads env field place provider method) :
      Leads env (.object fields) (n :: place) provider method
  | array {elements : List Element} {k n : Nat} {e : Element} {key : String} {field : Field}
      {place : Place} {provider method : String} (element : elements[k]? = some e)
      (holds : Condition.opens env e.condition = true) (member : e.fields[n]? = some (key, field))
      (leads : Leads env field place provider method) :
      Leads env (.array elements) (k :: n :: place) provider method

/-- A place of a composition where a provider is called: in a template that a view selects, a path
to a method of a registered provider that the template leads to. The call is for the whole item. -/
inductive Called (registered : String → Bool) (s : Subject) (instructions : List Instruction) :
    Place → MethodCall → Prop where
  | mk {k n : Nat} {i : Instruction} {fields : List (String × Field)} {name key : String}
      {field : Field} {place : Place} {provider method : String}
      (instruction : instructions[k]? = some i) (template : i.body = .template fields)
      (named : i.name = some name)
      (selected : ∃ view ∈ instructions, Selects (scopeOf s.item s.context) view name)
      (member : fields[n]? = some (key, field))
      (leads : Leads (scopeOf s.item s.context) field place provider method)
      (known : registered provider = true) :
      Called registered s instructions (k :: n :: place) ⟨provider, method, s.item⟩

theorem mem_fieldVisits_iff (field : Field) {place : Place} {call : MethodCall} :
    (place, call) ∈ fieldVisits registered s field ↔ ∃ provider method,
      Leads (scopeOf s.item s.context) field place provider method ∧
        registered provider = true ∧ call = ⟨provider, method, s.item⟩ := by
  induction field using Field.induction generalizing place with
  | literal | interpolated | bool | skip => exact ⟨nofun, nofun⟩
  | path kind source target =>
    cases target with
    | here | invalid => exact ⟨nofun, nofun⟩
    -- a call is seen exactly where the path leads, and the provider must be known
    | provider provider method rest =>
      rw [fieldVisits]
      constructor
      · intro hMem
        split at hMem
        · rename_i hKnown
          obtain ⟨rfl, rfl⟩ := Prod.mk.inj (List.mem_singleton.1 hMem)
          exact ⟨provider, method, .path, hKnown, rfl⟩
        · cases hMem
      · rintro ⟨_, _, ⟨⟩, hKnown, rfl⟩
        rw [if_pos hKnown]
        exact List.mem_singleton_self _
  | object fields ih =>
    rw [fieldVisits_object, mem_numbered_map]
    constructor
    · rintro ⟨n, rest, ⟨key, field⟩, rfl, hMember, hMem⟩
      obtain ⟨provider, method, hLeads, hCall⟩ :=
        (ih _ (List.mem_of_getElem? hMember)).1 hMem
      exact ⟨provider, method, .object hMember hLeads, hCall⟩
    · rintro ⟨provider, method, hLeads, hCall⟩
      cases hLeads with
      | object hMember hLeads =>
        exact ⟨_, _, _, rfl, hMember,
          (ih _ (List.mem_of_getElem? hMember)).2 ⟨provider, method, hLeads, hCall⟩⟩
  | array elements ih =>
    rw [fieldVisits_array, mem_numbered_map]
    constructor
    · rintro ⟨k, rest, e, rfl, hElement, hMem⟩
      -- the condition of an element stands between the path to it and that into it
      rw [elementVisits] at hMem
      split at hMem
      · rename_i hHolds
        obtain ⟨n, rest, ⟨key, field⟩, rfl, hMember, hMem⟩ := mem_numbered_map.1 hMem
        obtain ⟨provider, method, hLeads, hCall⟩ :=
          (ih e (List.mem_of_getElem? hElement) _ (List.mem_of_getElem? hMember)).1 hMem
        exact ⟨provider, method, .array hElement hHolds hMember hLeads, hCall⟩
      · cases hMem
    · rintro ⟨provider, method, hLeads, hCall⟩
      cases hLeads with
      | array hElement hHolds hMember hLeads =>
        refine ⟨_, _, _, rfl, hElement, ?_⟩
        rw [elementVisits, if_pos hHolds]
        exact mem_numbered_map.2 ⟨_, _, _, rfl, hMember,
          (ih _ (List.mem_of_getElem? hElement) _ (List.mem_of_getElem? hMember)).2
            ⟨provider, method, hLeads, hCall⟩⟩

/-- A template has the fields that it is to contribute if its name is selected. -/
theorem getElem?_fieldsOf_eq_some_iff {names : List String} {i : Instruction} {n : Nat}
    {f : String × Field} : (fieldsOf names i)[n]? = some f ↔ ∃ fields name,
      i.body = .template fields ∧ i.name = some name ∧ name ∈ names ∧ fields[n]? = some f := by
  unfold fieldsOf
  cases i.body with
  | view templates => simp
  | template fields =>
    cases i.name with
    | none => simp
    | some name =>
      by_cases hName : name ∈ names
      · simp [hName]
      · simp [hName]

/-- The places that a composition comes to are those where a provider is called. -/
theorem mem_visits_iff {place : Place} {call : MethodCall} :
    (place, call) ∈ visits registered s instructions ↔
      Called registered s instructions place call := by
  rw [visits, mem_numbered_map]
  constructor
  · rintro ⟨k, rest, i, rfl, hInstruction, hMem⟩
    rw [eachField_eq] at hMem
    obtain ⟨n, rest, ⟨key, field⟩, rfl, hMember, hMem⟩ := mem_numbered_map.1 hMem
    obtain ⟨fields, name, hTemplate, hNamed, hSelected, hMember⟩ :=
      getElem?_fieldsOf_eq_some_iff.1 hMember
    obtain ⟨provider, method, hLeads, hKnown, rfl⟩ := (mem_fieldVisits_iff field).1 hMem
    exact .mk hInstruction hTemplate hNamed (mem_selected_iff.1 hSelected) hMember hLeads hKnown
  · rintro ⟨hInstruction, hTemplate, hNamed, hSelected, hMember, hLeads, hKnown⟩
    have hField := getElem?_fieldsOf_eq_some_iff.2
      ⟨_, _, hTemplate, hNamed, mem_selected_iff.2 hSelected, hMember⟩
    refine ⟨_, _, _, rfl, hInstruction, ?_⟩
    rw [eachField_eq]
    exact mem_numbered_map.2
      ⟨_, _, _, rfl, hField, (mem_fieldVisits_iff _).2 ⟨_, _, hLeads, hKnown, rfl⟩⟩

end Composition

end ItemComposition
