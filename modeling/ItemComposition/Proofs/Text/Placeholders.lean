import ItemComposition.Text.Placeholder

/-!
# Which placeholders a text has

A text is read from left to right. Where a placeholder starts its name is taken up to the next
closing brace, and the reading goes on behind that brace, so that nothing inside a placeholder counts
as one of its own.

## Key results

- `name?_eq_some_iff`: where a placeholder starts
- `mem_names_iff`: the names that are found are those that the text mentions
- `exists_expand_iff`: the values can be put in exactly if all of them are there
-/

namespace ItemComposition.Placeholder

/-- A text starts with the placeholder of a name, and goes on with another one. -/
def Starts (cs : List Char) (name : String) (after : List Char) : Prop :=
  name ≠ "" ∧ '\x7d' ∉ name.toList ∧ cs = '$' :: '\x7b' :: (name.toList ++ '\x7d' :: after)

/-- A text has a placeholder of the name. -/
inductive Mentions : List Char → String → Prop
  | here {cs after : List Char} {name : String} (starts : Starts cs name after) : Mentions cs name
  | behind {cs after : List Char} {name other : String} (starts : Starts cs name after)
    (mentions : Mentions after other) : Mentions cs other
  | later {c : Char} {cs : List Char} {name : String}
    (none : ∀ other after, ¬ Starts (c :: cs) other after) (mentions : Mentions cs name) :
    Mentions (c :: cs) name

theorem name?_eq_some_iff {cs name after : List Char} :
    name? cs = some (name, after) ↔ Starts cs (String.ofList name) after := by
  unfold name? Starts
  rw [String.toList_ofList]
  split
  · rename_i rest
    have hSplit := List.takeWhile_append_dropWhile (p := (· ≠ '\x7d')) (l := rest)
    constructor
    · intro h
      -- without a brace behind it the name does not end; with one, the name must not be empty
      cases hDrop : rest.dropWhile (· ≠ '\x7d') with
      | nil =>
        cases hTake : rest.takeWhile (· ≠ '\x7d') <;>
          simp only [hTake, hDrop, reduceCtorEq] at h
      | cons brace after' =>
        have hFirst : brace = '\x7d' := by
          have hHead := List.head?_dropWhile_not (· ≠ '\x7d') rest
          rw [hDrop] at hHead
          simpa using hHead
        have hFree : '\x7d' ∉ rest.takeWhile (· ≠ '\x7d') := fun hMem => by
          simpa using List.all_eq_true.1 List.all_takeWhile _ hMem
        cases hTake : rest.takeWhile (· ≠ '\x7d') with
        | nil => simp only [hTake, reduceCtorEq] at h
        | cons c found =>
          simp only [hTake, hDrop, Option.some.injEq, Prod.mk.injEq] at h
          obtain ⟨rfl, rfl⟩ := h
          rw [hTake] at hFree hSplit
          rw [hDrop, hFirst] at hSplit
          exact ⟨by simp, hFree, by rw [← hSplit]⟩
    · rintro ⟨hName, hFree, hText⟩
      obtain rfl := (List.cons.inj (List.cons.inj hText).2).2
      have hAll : ∀ c ∈ name, (decide (c ≠ '\x7d')) = true := by
        intro c hc
        rw [decide_eq_true_eq]
        rintro rfl
        exact hFree hc
      rw [List.takeWhile_append_of_pos hAll, List.dropWhile_append_of_pos hAll]
      cases name with
      | nil => simp at hName
      | cons c name => simp
  · rename_i hOther
    simp only [reduceCtorEq, false_iff]
    rintro ⟨-, -, hText⟩
    exact hOther _ hText

/-- What starts a text is one placeholder only. -/
theorem Starts.unique {cs after after' : List Char} {name name' : String}
    (h : Starts cs name after) (h' : Starts cs name' after') : name = name' ∧ after = after' := by
  rw [← String.ofList_toList (s := name), ← name?_eq_some_iff] at h
  rw [← String.ofList_toList (s := name'), ← name?_eq_some_iff, h] at h'
  obtain ⟨hName, hAfter⟩ := Prod.mk.inj (Option.some.inj h')
  exact ⟨String.toList_inj.1 hName, hAfter⟩

theorem not_starts_of_name? {cs : List Char} (h : name? cs = none) (name : String)
    (after : List Char) : ¬ Starts cs name after := by
  rw [← String.ofList_toList (s := name), ← name?_eq_some_iff, h]
  exact nofun

/-! ## Names -/

/-- The variables among the parts of a text. -/
def namesIn (ps : List Piece) : List String :=
  ps.filterMap fun
    | .variable name => some name
    | .char _ => none

theorem names_eq (cs : List Char) : names cs = namesIn (pieces cs) := rfl

@[simp] theorem namesIn_char (c : Char) (ps : List Piece) :
    namesIn (.char c :: ps) = namesIn ps := rfl

@[simp] theorem namesIn_variable (name : String) (ps : List Piece) :
    namesIn (.variable name :: ps) = name :: namesIn ps := rfl

/-- The names that are found in a text are those that it mentions. -/
theorem mem_names_iff {cs : List Char} {name : String} : name ∈ names cs ↔ Mentions cs name := by
  rw [names_eq]
  fun_induction pieces cs with
  | case1 cs found after hFound _ ih =>
    have hStarts := name?_eq_some_iff.1 hFound
    rw [namesIn_variable, List.mem_cons, ih]
    constructor
    · rintro (rfl | hAfter)
      · exact .here hStarts
      · exact .behind hStarts hAfter
    · intro h
      cases h with
      -- a name that starts here is found first, and only where none starts does the text go on
      | here starts => exact .inl (starts.unique hStarts).1
      | behind starts mentions => exact .inr ((starts.unique hStarts).2 ▸ mentions)
      | later none mentions => exact absurd hStarts (none _ _)
  | case2 hNone =>
    refine ⟨fun h => absurd h List.not_mem_nil, fun h => ?_⟩
    cases h with
    | here starts => cases starts.2.2
    | behind starts mentions => cases starts.2.2
  | case3 c rest hNone ih =>
    have hNot := not_starts_of_name? hNone
    rw [namesIn_char, ih]
    refine ⟨.later hNot, fun h => ?_⟩
    cases h with
    | here starts => exact absurd starts (hNot _ _)
    | behind starts mentions => exact absurd starts (hNot _ _)
    | later none mentions => exact mentions

/-! ## Values -/

theorem exists_fill_iff {environment : Dict String} {ps : List Piece} :
    (∃ cs, fill environment ps = .ok cs) ↔
      ∀ name ∈ namesIn ps, ∃ value, environment.get? name = some value := by
  induction ps with
  | nil => simp [fill, namesIn]
  | cons p ps ih =>
    obtain c | name := p
    · rw [namesIn_char, ← ih, fill]
      cases fill environment ps <;> simp
    · rw [namesIn_variable, List.forall_mem_cons, ← ih, fill]
      cases environment.get? name with
      | none => simp
      | some value => cases fill environment ps <;> simp

/-- The values of variables can be put in exactly if each of them has one. -/
theorem exists_expand_iff {environment : Dict String} {text : String} :
    (∃ s, expand environment text = .ok s) ↔
      ∀ name, Mentions text.toList name → ∃ value, environment.get? name = some value := by
  simp only [← mem_names_iff]
  rw [names_eq, ← exists_fill_iff, expand]
  cases fill environment (pieces text.toList) <;> simp

end ItemComposition.Placeholder
