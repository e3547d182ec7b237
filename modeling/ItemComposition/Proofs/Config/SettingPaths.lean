import ItemComposition.Config.Layer

/-!
# Changes at different places of settings

Settings are changed one path after the other. A change at one path is not seen by another one that
parts from it: two settings that are alike but for what a path of keys leads to stay so under changes
at all other places, and what is read from elsewhere is the same in both.

## Key results

- `alikeBut_put`: putting two values at a path leaves settings that differ in nothing else
- `AlikeBut.putAll`: layers whose paths part from it change both in the same way
- `AlikeBut.record?`: what is read from both
-/

namespace ItemComposition.Setting

variable {v w a b : Setting} {key other path : String} {keys : List String}

/-- Two settings are alike but for what a path of keys leads to, which is one value in the first and
another one in the second. -/
inductive AlikeBut (v w : Setting) : List String → Setting → Setting → Prop
  | here : AlikeBut v w [] v w
  | under {key : String} {keys : List String} {left right : List (String × Setting)} {a b : Setting}
    (first : ∀ m ∈ left, m.1 ≠ key) (alike : AlikeBut v w keys a b) :
    AlikeBut v w (key :: keys) (table (left ++ (key, a) :: right)) (table (left ++ (key, b) :: right))

/-- Two paths part: the same steps lead to a table, from which they go on with different keys. -/
inductive Apart : List Step → List Step → Prop
  | here {key other : String} (ne : key ≠ other) (steps rest : List Step) :
    Apart (.key key :: steps) (.key other :: rest)
  | behind {steps rest : List Step} (step : Step) (apart : Apart steps rest) :
    Apart (step :: steps) (step :: rest)

/-! ## Changes of one key -/

theorem alterKey_append {left : List (String × Setting)} (first : ∀ m ∈ left, m.1 ≠ key)
    (right : List (String × Setting)) (change : Setting → Setting) (a : Setting) :
    alterKey key change (left ++ (key, a) :: right) = left ++ (key, change a) :: right := by
  induction left with
  | nil => rw [List.nil_append, alterKey, if_pos rfl, List.nil_append]
  | cons m left ih =>
    obtain ⟨hFirst, hRest⟩ := List.forall_mem_cons.1 first
    rw [List.cons_append, alterKey, if_neg hFirst, ih hRest, List.cons_append]

/-- A change of another key leaves a member where it is, before or behind the one that is changed. -/
theorem exists_alterKey_of_ne (ne : other ≠ key) {left : List (String × Setting)}
    (first : ∀ m ∈ left, m.1 ≠ key) (right : List (String × Setting)) (change : Setting → Setting) :
    ∃ left' right', (∀ m ∈ left', m.1 ≠ key) ∧
      ∀ a, alterKey other change (left ++ (key, a) :: right) = left' ++ (key, a) :: right' := by
  induction left with
  | nil =>
    refine ⟨[], alterKey other change right, List.forall_mem_nil _, fun a => ?_⟩
    rw [List.nil_append, alterKey, if_neg ne.symm, List.nil_append]
  | cons m left ih =>
    obtain ⟨hFirst, hRest⟩ := List.forall_mem_cons.1 first
    -- the change is made to the left of the key, or else where it was made in the rest
    by_cases hOther : m.1 = other
    · refine ⟨(m.1, change m.2) :: left, right, List.forall_mem_cons.2 ⟨hFirst, hRest⟩, fun a => ?_⟩
      rw [List.cons_append, alterKey, if_pos hOther, List.cons_append]
    · obtain ⟨left', right', hLeft, hAlter⟩ := ih hRest
      refine ⟨m :: left', right', List.forall_mem_cons.2 ⟨hFirst, hLeft⟩, fun a => ?_⟩
      rw [List.cons_append, alterKey, if_neg hOther, hAlter a, List.cons_append]

/-- A change of a key makes a table that has it, whatever was there before. -/
theorem exists_atKey (key : String) (under : Setting) : ∃ left right old,
    (∀ m ∈ left, m.1 ≠ key) ∧
      ∀ change, atKey key change under = table (left ++ (key, change old) :: right) := by
  cases under with
  | table members =>
    simp only [atKey, table.injEq]
    induction members with
    -- a key that is missing is added at the end
    | nil => exact ⟨[], [], absent, List.forall_mem_nil _, fun _ => rfl⟩
    | cons m members ih =>
      by_cases hKey : m.1 = key
      · refine ⟨[], members, m.2, List.forall_mem_nil _, fun change => ?_⟩
        rw [alterKey, if_pos hKey, hKey, List.nil_append]
      · obtain ⟨left, right, old, hLeft, hAlter⟩ := ih
        refine ⟨m :: left, right, old, List.forall_mem_cons.2 ⟨hKey, hLeft⟩, fun change => ?_⟩
        rw [alterKey, if_neg hKey, hAlter change, List.cons_append]
  | _ => exact ⟨[], [], absent, List.forall_mem_nil _, fun _ => rfl⟩

/-! ## Changes along paths -/

/-- Putting one value or another at a path of keys makes no other difference. -/
theorem alikeBut_put (hPath : stepsOf path = keys.map .key) (hv : ∀ under, merge v under = v)
    (hw : ∀ under, merge w under = w) (under : Setting) :
    AlikeBut v w keys (put path v under) (put path w under) := by
  simp only [put, hPath]
  -- from here on the keys stand for any rest of the path
  clear hPath
  induction keys generalizing under with
  | nil =>
    simp only [List.map_nil, List.foldr_nil, hv, hw]
    exact .here
  | cons key keys ih =>
    obtain ⟨left, right, old, hLeft, hAt⟩ := exists_atKey key under
    simp only [List.map_cons, List.foldr_cons, at_, hAt]
    exact .under hLeft (ih old)

theorem AlikeBut.foldr_at {steps : List Step} (h : AlikeBut v w keys a b)
    (change : Setting → Setting) (apart : Apart steps (keys.map .key)) :
    AlikeBut v w keys (steps.foldr at_ change a) (steps.foldr at_ change b) := by
  -- the change goes the same way in both until the paths part, and from there on it is beside the
  -- member in which they differ
  induction h generalizing steps with
  | here => cases apart
  | @under key keys left right a b first alike ih =>
    cases apart with
    | here ne steps =>
      obtain ⟨left', right', hLeft, hAlter⟩ :=
        exists_alterKey_of_ne ne first right (steps.foldr at_ change)
      simp only [List.foldr_cons, at_, atKey, hAlter]
      exact .under hLeft alike
    | behind step apart =>
      simp only [List.foldr_cons, at_, atKey, alterKey_append first]
      exact .under first (ih apart)

/-- Layers whose paths part from one change settings in the same way that differ there only. -/
theorem AlikeBut.putAll {layer : List (String × Setting)} (h : AlikeBut v w keys a b)
    (apart : ∀ e ∈ layer, Apart (stepsOf e.1) (keys.map .key)) :
    AlikeBut v w keys (Setting.putAll layer a) (Setting.putAll layer b) := by
  induction layer generalizing a b with
  | nil => exact h
  | cons e layer ih =>
    obtain ⟨hFirst, hRest⟩ := List.forall_mem_cons.1 apart
    exact ih (h.foldr_at (merge e.2) hFirst) hRest

/-! ## Reading -/

theorem find?_filter_names {names : List String} (hOther : other ∈ names)
    (members : List (String × Setting)) :
    DataFormat.find? (members.filter fun m => names.contains m.1) other =
      DataFormat.find? members other := by
  have hSame : ∀ m : String × Setting,
      decide (names.contains m.1 = true ∧ decide (m.1 = other) = true) = decide (m.1 = other) := by
    intro m
    rw [decide_eq_decide, decide_eq_true_eq, List.contains_iff_mem]
    exact and_iff_right_of_imp fun hName => hName ▸ hOther
  rw [DataFormat.find?, List.find?_filter, funext hSame, DataFormat.find?]

theorem find?_append_cons_self {left : List (String × Setting)} (first : ∀ m ∈ left, m.1 ≠ key)
    (right : List (String × Setting)) (a : Setting) :
    DataFormat.find? (left ++ (key, a) :: right) key = some a := by
  have hLeft : left.find? (fun m => m.1 = key) = none := by simpa using first
  rw [DataFormat.find?, List.find?_append, hLeft, Option.none_or,
    List.find?_cons_of_pos (by simp), Option.map_some]

theorem find?_append_cons_of_ne (ne : other ≠ key) (left right : List (String × Setting))
    (a b : Setting) : DataFormat.find? (left ++ (key, a) :: right) other =
      DataFormat.find? (left ++ (key, b) :: right) other := by
  rw [DataFormat.find?, DataFormat.find?, List.find?_append, List.find?_append,
    List.find?_cons_of_neg (by simpa using ne.symm), List.find?_cons_of_neg (by simpa using ne.symm)]

/-- Both settings are read as records. They have the same fields but for the one that the path goes
through, and in this one they are alike but for the rest of the path. -/
theorem AlikeBut.record? (h : AlikeBut v w (key :: keys) a b) (names : List String)
    (hKey : key ∈ names) : ∃ fields fields' a' b', format.record? names a = some fields ∧
      format.record? names b = some fields' ∧ AlikeBut v w keys a' b' ∧
      (∀ {α : Type} (read : Setting → Option α) (absent : α),
        DataFormat.field fields key read absent = read a' ∧
        DataFormat.field fields' key read absent = read b') ∧
      ∀ {α : Type} (read : Setting → Option α) (absent : α), ∀ other ∈ names, other ≠ key →
        DataFormat.field fields other read absent = DataFormat.field fields' other read absent := by
  cases h with
  | @under _ _ left right a b first alike =>
    -- a look-up of the key sees the two settings, one of any other key sees what stands beside them
    refine ⟨_, _, a, b, rfl, rfl, alike, fun read absent => ?_, fun read absent other hOther ne => ?_⟩
    · constructor <;>
        simp only [DataFormat.field, find?_filter_names hKey, find?_append_cons_self first]
    · simp only [DataFormat.field, find?_filter_names hOther,
        find?_append_cons_of_ne ne left right a b]

end ItemComposition.Setting
