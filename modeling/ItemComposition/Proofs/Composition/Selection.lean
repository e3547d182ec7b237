import ItemComposition.Proofs.Composition.KeyByKey

/-!
# What a composition depends on

Views and templates stand in one list, but a composition looks at them apart: of the views only the
set of names that they select matters, and of the templates only their order among themselves. So
views may be moved, repeated, split or dropped as long as the same templates are selected. This
needs nothing of the providers: the same calls are made in the same order.

## Key results

- `compose_eq_addFields`: a composition is one list of fields, added to nothing
- `mem_selected_iff`: which names are selected
- `flatMap_fieldsOf_congr`: lists of instructions with the same fields
- `Engine.compose_eq_of_selection`: lists of instructions with the same composition
-/

namespace ItemComposition

namespace Composition

/-! ## Fields in a row -/

section Fields

variable {m : Type → Type} [Monad m] [LawfulMonad m] (call : Caller m) (s : Subject)

theorem addFields_append (target : Dict Json) (fields more : List (String × Field)) :
    addFields call s target (fields ++ more) =
      addFields call s target fields >>= fun target => addFields call s target more := by
  induction fields generalizing target with
  | nil => rw [List.nil_append, addFields, pure_bind]
  | cons f fields ih =>
    obtain ⟨key, field⟩ := f
    rw [List.cons_append, addFields, addFields, bind_assoc]
    congr 1
    funext c
    -- what the first field contributes is in the target of all that follow
    cases c with
    | none => exact ih target
    | some c => exact ih (c.addTo target key)

/-- Templates add their fields as one list. -/
theorem addTemplates_eq_addFields (names : List String) (target : Dict Json)
    (instructions : List Instruction) :
    addTemplates call s names target instructions =
      addFields call s target (instructions.flatMap (fieldsOf names)) := by
  induction instructions generalizing target with
  | nil => rw [addTemplates, List.flatMap_nil, addFields]
  | cons i rest ih =>
    rw [addTemplates, List.flatMap_cons, addFields_append]
    congr 1
    funext target
    exact ih target

/-- A composition is the list of the fields of the selected templates, added to nothing. -/
theorem compose_eq_addFields (instructions : List Instruction) :
    compose call s instructions = addFields call s [] (instructions.flatMap
      (fieldsOf (selected (scopeOf s.item s.context) instructions))) :=
  addTemplates_eq_addFields call s _ [] instructions

end Fields

/-! ## Selected names -/

variable {env : Json} {instructions others : List Instruction} {name : String}

/-- A view whose gate is open names a template. -/
def Selects (env : Json) (i : Instruction) (name : String) : Prop :=
  ∃ names, i.body = .view names ∧ Condition.opens env i.condition = true ∧ name ∈ names

/-- The selected names are those that a view with an open gate names. -/
theorem mem_selected_iff :
    name ∈ selected env instructions ↔ ∃ i ∈ instructions, Selects env i name := by
  rw [selected, List.mem_flatMap]
  refine exists_congr fun i => and_congr_right fun _ => ?_
  unfold Selects
  cases i.body with
  | template fields => simp
  | view names =>
    by_cases hOpen : Condition.opens env i.condition = true
    · simp [hOpen]
    · simp [hOpen]

/-! ## Fields of selected templates -/

/-- A view has no fields. -/
theorem fieldsOf_eq_nil_of_isView {names : List String} {i : Instruction}
    (h : i.isView = true) : fieldsOf names i = [] := by
  unfold Instruction.isView at h
  unfold fieldsOf
  cases hBody : i.body with
  | view templates => rfl
  | template fields =>
    rw [hBody] at h
    cases h

theorem flatMap_fieldsOf_filter (names : List String) (instructions : List Instruction) :
    (instructions.filter (!·.isView)).flatMap (fieldsOf names) =
      instructions.flatMap (fieldsOf names) := by
  induction instructions with
  | nil => rfl
  | cons i rest ih =>
    cases hView : i.isView with
    | true =>
      rw [List.filter_cons_of_neg (by simp [hView]), List.flatMap_cons,
        fieldsOf_eq_nil_of_isView hView, List.nil_append, ih]
    | false =>
      rw [List.filter_cons_of_pos (by simp [hView]), List.flatMap_cons, List.flatMap_cons, ih]

/-- The fields of a template depend on whether its own name is selected. -/
theorem fieldsOf_congr {names names' : List String} {i : Instruction}
    (h : ∀ name, i.name = some name → (name ∈ names ↔ name ∈ names')) :
    fieldsOf names i = fieldsOf names' i := by
  unfold fieldsOf
  cases i.body with
  | view templates => rfl
  | template fields =>
    cases hName : i.name with
    | none => rfl
    | some name =>
      -- a template looks only whether its own name is among those selected
      have hSame : names.contains name = names'.contains name := by
        rw [Bool.eq_iff_iff, List.contains_iff_mem, List.contains_iff_mem]
        exact h name hName
      simp only [hSame]

/-- Where the templates are the same in the same order, and the views select the same of their
names, there are the same fields in the same order. -/
theorem flatMap_fieldsOf_congr
    (templates : instructions.filter (!·.isView) = others.filter (!·.isView))
    (names : ∀ i ∈ instructions, i.isView = false → ∀ name, i.name = some name →
      ((∃ j ∈ instructions, Selects env j name) ↔ ∃ j ∈ others, Selects env j name)) :
    instructions.flatMap (fieldsOf (selected env instructions)) =
      others.flatMap (fieldsOf (selected env others)) := by
  rw [← flatMap_fieldsOf_filter _ instructions, ← flatMap_fieldsOf_filter _ others, ← templates,
    List.flatMap_def, List.flatMap_def]
  congr 1
  refine List.map_congr_left fun i hi => fieldsOf_congr fun name hName => ?_
  obtain ⟨hMem, hView⟩ := List.mem_filter.1 hi
  rw [mem_selected_iff, mem_selected_iff]
  exact names i hMem (by simpa using hView) name hName

end Composition

namespace Engine

open ItemComposition.Composition

variable {ε σ : Type}

/-- Two lists of instructions with the same templates in the same order, whose views select the
same of the names of these templates, have the same composition: from the same scene on they make
the same calls and leave the same scene behind. If the answers of the providers are fixed, the
composed objects agree from any two scenes. -/
theorem compose_eq_of_selection (registry : Registry ε) (network : Network ε σ)
    (cancel : Option Nat) (wall : Int) (s : Subject) (instructions others : List Instruction)
    (templates : instructions.filter (!·.isView) = others.filter (!·.isView))
    (names : ∀ i ∈ instructions, i.isView = false → ∀ name, i.name = some name →
      ((∃ j ∈ instructions, Selects (scopeOf s.item s.context) j name) ↔
        ∃ j ∈ others, Selects (scopeOf s.item s.context) j name)) :
    (∀ scene, Engine.compose registry network cancel wall s instructions scene =
      Engine.compose registry network cancel wall s others scene) ∧
    ∀ answer, Answered (caller registry network cancel wall) answer s.item → ∀ scene scene',
      (Engine.compose registry network cancel wall s instructions scene).1 =
        (Engine.compose registry network cancel wall s others scene').1 := by
  have hFields := flatMap_fieldsOf_congr templates names
  constructor
  · -- the fields to add are the same, and the rest of a composition sees nothing else
    intro scene
    unfold Engine.compose
    rw [compose_eq_addFields, compose_eq_addFields, hFields]
  · intro answer answered scene scene'
    have hFirst := returns_compose answered instructions scene
    have hSecond := returns_compose answered others scene'
    rw [hFields] at hFirst
    exact hFirst.trans hSecond.symm

/-- Views that come late, twice, with an unknown name or with a closed gate: what counts is that
both lists select the card and not the page. -/
theorem compose_eq_of_selection_card :
    let shut : Condition := ⟨"no", .error (.notBoolean .null)⟩
    let card : Instruction :=
      ⟨"", some "card", [], none, .template [("title", .literal (.str "Card"))]⟩
    let page : Instruction :=
      ⟨"", some "page", [], none, .template [("title", .literal (.str "Page"))]⟩
    let view (condition : Option Condition) (names : List String) : Instruction :=
      ⟨"", none, [], condition, .view names⟩
    let instructions := [view none ["card"], card, page]
    let others := [view (some shut) ["page"], card, view none ["ghost", "card"], page,
      view none ["card", "card"]]
    let composed (is : List Instruction) (now : Nat) : Dict Json :=
      (Engine.compose Registry.empty offline none 0 ⟨.null, .null, []⟩ is ⟨now, ()⟩).1
    instructions.filter (!·.isView) = others.filter (!·.isView) ∧
      composed instructions 0 = [("title", .str "Card")] ∧
      composed others 0 = [("title", .str "Card")] ∧
      composed others 7 = [("title", .str "Card")] := by
  intro shut card page view instructions others composed
  have hTemplates : instructions.filter (!·.isView) = others.filter (!·.isView) := rfl
  -- only two templates have a name, and both lists select the first one alone
  have hNames : ∀ i ∈ instructions, i.isView = false → ∀ name, i.name = some name →
      ((∃ j ∈ instructions, Selects (scopeOf .null .null) j name) ↔
        ∃ j ∈ others, Selects (scopeOf .null .null) j name) := by
    intro i hi hView name hName
    rw [← mem_selected_iff, ← mem_selected_iff]
    have hFirst : selected (scopeOf .null .null) instructions = ["card"] := rfl
    have hSecond : selected (scopeOf .null .null) others = ["ghost", "card", "card", "card"] := rfl
    rw [hFirst, hSecond]
    have hOf : name = "card" ∨ name = "page" := by
      simp only [instructions, List.mem_cons, List.not_mem_nil, or_false] at hi
      rcases hi with rfl | rfl | rfl <;> simp_all [view, card, page]
    rcases hOf with rfl | rfl <;> decide
  have hCard : composed instructions 0 = [("title", .str "Card")] := rfl
  obtain ⟨hSame, hFixed⟩ := compose_eq_of_selection Registry.empty offline none 0
    ⟨.null, .null, []⟩ instructions others hTemplates hNames
  have hNow : composed instructions 0 = composed others 0 := congrArg Prod.fst (hSame ⟨0, ()⟩)
  have hLater : composed instructions 0 = composed others 7 :=
    hFixed (fun provider _ _ => .error (.notFound provider)) (fun _ _ _ => rfl) ⟨0, ()⟩ ⟨7, ()⟩
  exact ⟨hTemplates, hCard, hNow ▸ hCard, hLater ▸ hCard⟩

end Engine

end ItemComposition
