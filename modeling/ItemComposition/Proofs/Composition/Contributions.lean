import ItemComposition.Composition

/-!
# Objects key by key

What a list of fields contributes, when every call of a provider has one answer, and the object
that the contributions make. The object is put together one key at a time: a key has what its own
contributions settle on, in their order, and no other contribution matters to it.

## Key results

- `share_eq_none_iff`: which fields contribute nothing
- `get?_assemble`: an object has under a key what the contributions under it settle on
- `addAll_nil`: contributions added one after the other make the same object
-/

namespace ItemComposition

/-- A contribution in place of what a key has. -/
def Contribution.onto : Contribution → Option Json → Json
  | replace v, _ => v
  | merge members, some (.obj existing) => .obj (Dict.union existing members)
  | merge members, _ => .obj members

namespace Composition

/-- What contributions to one key settle on; none without contributions. -/
def settled (cs : List Contribution) : Option Json :=
  cs.foldl (fun v c => some (c.onto v)) none

/-- The contributions under a key, in order. -/
def under (key : String) (cs : List (String × Contribution)) : List Contribution :=
  (cs.filter (·.1 = key)).map Prod.snd

/-- The object of contributions: each key in order with what it settles on. -/
def assemble (cs : List (String × Contribution)) : Dict Json :=
  (Dict.keys (Dict.ofList cs)).filterMap fun key => (settled (under key cs)).map (key, ·)

/-- How the methods of providers answer for an item. -/
abbrev Answers : Type :=
  (provider method : String) → (item : Json) → Except ProviderError CallOutcome

variable (answer : Answers) (s : Subject)

/-- The value that a path leads to; none if a provider does not take the item. -/
def pathShare : PathTarget → Option Json
  | .here path => some (orNull (path.eval (scopeOf s.item s.context)))
  | .invalid _ => some .null
  | .provider provider method rest => answerValue s.context rest (answer provider method s.item)

mutual

/-- What a field contributes; none if it yields nothing. -/
def share : Field → Option Contribution
  | .literal v => some (.replace v)
  | .bool b => some (.replace (.bool b))
  | .interpolated template => some (.replace (textValue s template))
  | .path _ _ target => (pathShare answer s target).map .replace
  | .object fields => some (.merge (assemble (shares fields)))
  | .array elements => some (.replace (.arr (elementObjects elements)))
  | .skip _ => none

/-- What fields contribute under their keys, without those that yield nothing. -/
def shares : List (String × Field) → List (String × Contribution)
  | [] => []
  | (key, field) :: rest =>
    match share field with
    | some c => (key, c) :: shares rest
    | none => shares rest

/-- The objects of the elements whose gates are open. -/
def elementObjects : List Element → List Json
  | [] => []
  | .mk condition fields :: rest =>
    if Condition.opens (scopeOf s.item s.context) condition then
      .obj (assemble (shares fields)) :: elementObjects rest
    else elementObjects rest

end

theorem answerValue_eq_none_iff {context : Json} {rest : Expr}
    {a : Except ProviderError CallOutcome} :
    answerValue context rest a = none ↔ a = .ok .noMatch := by
  cases a with
  | error e => simp [answerValue]
  | ok outcome => cases outcome <;> simp [answerValue]

/-- A field contributes nothing if it is skipped or its provider does not take the item. -/
theorem share_eq_none_iff (field : Field) : share answer s field = none ↔
    (∃ reason, field = .skip reason) ∨
      ∃ kind source provider method rest,
        field = .path kind source (.provider provider method rest) ∧
          answer provider method s.item = .ok .noMatch := by
  -- of all fields only a path to a provider asks anything; the others share what they always do
  cases field with
  | literal | interpolated | bool | object | array | skip => simp [share]
  | path kind source target =>
    cases target with
    | here | invalid => simp [share, pathShare]
    | provider provider method rest =>
      rw [share, pathShare, Option.map_eq_none_iff, answerValue_eq_none_iff]
      constructor
      · exact fun h => .inr ⟨kind, source, provider, method, rest, rfl, h⟩
      · rintro (⟨reason, h⟩ | ⟨_, _, _, _, _, h, hAnswer⟩)
        · cases h
        · cases h
          exact hAnswer

/-! ## Contributions to one key -/

theorem under_cons_self (key : String) (c : Contribution) (cs : List (String × Contribution)) :
    under key ((key, c) :: cs) = c :: under key cs := by
  rw [under, List.filter_cons_of_pos (by simp)]
  rfl

theorem under_cons_of_ne {key other : String} (c : Contribution)
    (cs : List (String × Contribution)) (h : other ≠ key) :
    under key ((other, c) :: cs) = under key cs := by
  rw [under, List.filter_cons_of_neg (by simpa using h)]
  rfl

theorem under_eq_nil_iff {key : String} {cs : List (String × Contribution)} :
    under key cs = [] ↔ key ∉ cs.map Prod.fst := by
  rw [under, List.map_eq_nil_iff, List.filter_eq_nil_iff]
  simp only [decide_eq_true_eq, List.mem_map, not_exists, not_and]

theorem foldl_onto_eq_none_iff {cs : List Contribution} {v : Option Json} :
    cs.foldl (fun v c => some (c.onto v)) v = none ↔ cs = [] ∧ v = none := by
  induction cs generalizing v with
  | nil => simp
  | cons c cs ih => simp [ih]

/-- Whatever is contributed leaves a value. -/
theorem settled_eq_none_iff {cs : List Contribution} : settled cs = none ↔ cs = [] := by
  rw [settled, foldl_onto_eq_none_iff, and_iff_left rfl]

/-! ## Objects -/

private theorem keys_filterMap (keys : List String) (f : String → Option Json) :
    Dict.keys (keys.filterMap fun key => (f key).map (key, ·)) =
      keys.filter fun key => (f key).isSome := by
  induction keys with
  | nil => rfl
  | cons key keys ih =>
    cases h : f key with
    | none =>
      rw [List.filterMap_cons_none (by rw [h]; rfl), ih, List.filter_cons_of_neg (by simp [h])]
    | some v =>
      rw [List.filterMap_cons_some (by rw [h]; rfl), List.filter_cons_of_pos (by simp [h]), ← ih]
      rfl

private theorem get?_filterMap (keys : List String) (f : String → Option Json) {key : String}
    (mem : key ∈ keys) :
    Dict.get? (keys.filterMap fun key => (f key).map (key, ·)) key = f key := by
  cases h : f key with
  | none =>
    rw [Dict.get?_eq_none_iff, keys_filterMap]
    exact fun hMem => by simp [h] at hMem
  | some v =>
    -- an earlier entry is one of another key, or the same
    induction keys with
    | nil => cases mem
    | cons other keys ih =>
      by_cases hKey : other = key
      · subst hKey
        rw [List.filterMap_cons_some (by rw [h]; rfl), Dict.get?_cons, if_pos rfl]
      · have hTail := ih (List.mem_of_ne_of_mem (Ne.symm hKey) mem)
        cases hOther : f other with
        | none => rw [List.filterMap_cons_none (by rw [hOther]; rfl), hTail]
        | some w =>
          rw [List.filterMap_cons_some (by rw [hOther]; rfl), Dict.get?_cons, if_neg hKey, hTail]

theorem sorted_assemble (cs : List (String × Contribution)) : Dict.Sorted (assemble cs) := by
  rw [Dict.Sorted, assemble, keys_filterMap]
  exact (Dict.sorted_ofList cs).filter _

/-- An object has under a key what the contributions under it settle on. -/
theorem get?_assemble (cs : List (String × Contribution)) (key : String) :
    Dict.get? (assemble cs) key = settled (under key cs) := by
  by_cases mem : key ∈ Dict.keys (Dict.ofList cs)
  · exact get?_filterMap _ _ mem
  · rw [settled_eq_none_iff.2 (under_eq_nil_iff.2 fun h => mem (Dict.mem_keys_ofList.2 h)),
      Dict.get?_eq_none_iff, assemble, keys_filterMap]
    exact fun h => mem ((List.mem_filter.1 h).1)

theorem mem_keys_assemble {cs : List (String × Contribution)} {key : String} :
    key ∈ Dict.keys (assemble cs) ↔ under key cs ≠ [] := by
  rw [← Decidable.not_not (p := key ∈ _), ← Dict.get?_eq_none_iff, get?_assemble,
    settled_eq_none_iff]

/-! ## Contributions one after the other -/

theorem get?_addTo_self (c : Contribution) (target : Dict Json) (key : String) :
    Dict.get? (c.addTo target key) key = some (c.onto (Dict.get? target key)) := by
  cases c with
  | replace v => exact Dict.get?_insert_self target key v
  | merge members =>
    rw [Contribution.addTo]
    split
    · next h => rw [Dict.get?_insert_self, h, Contribution.onto]
    · next h =>
      rw [Dict.get?_insert_self]
      -- what is not an object gives way to the members merged into it
      cases hTarget : Dict.get? target key with
      | none => rfl
      | some v =>
        cases v with
        | obj existing => exact absurd hTarget (h existing)
        | _ => rfl

theorem get?_addTo_of_ne (c : Contribution) (target : Dict Json) {key other : String}
    (h : other ≠ key) : Dict.get? (c.addTo target key) other = Dict.get? target other := by
  cases c with
  | replace v => exact Dict.get?_insert_of_ne target v h
  | merge members =>
    rw [Contribution.addTo]
    split <;> exact Dict.get?_insert_of_ne target _ h

theorem sorted_addTo (c : Contribution) {target : Dict Json} (h : Dict.Sorted target)
    (key : String) : Dict.Sorted (c.addTo target key) := by
  cases c with
  | replace v => exact Dict.sorted_insert h key v
  | merge members =>
    rw [Contribution.addTo]
    split <;> exact Dict.sorted_insert h key _

/-- Adds contributions to an object, one after the other. -/
def addAll (target : Dict Json) (cs : List (String × Contribution)) : Dict Json :=
  cs.foldl (fun d c => c.2.addTo d c.1) target

theorem sorted_addAll {target : Dict Json} (h : Dict.Sorted target)
    (cs : List (String × Contribution)) : Dict.Sorted (addAll target cs) := by
  induction cs generalizing target with
  | nil => exact h
  | cons c cs ih => exact ih (sorted_addTo c.2 h c.1)

/-- A key goes through its own contributions only. -/
theorem get?_addAll (target : Dict Json) (cs : List (String × Contribution)) (key : String) :
    Dict.get? (addAll target cs) key =
      (under key cs).foldl (fun v c => some (c.onto v)) (Dict.get? target key) := by
  induction cs generalizing target with
  | nil => rfl
  | cons c cs ih =>
    obtain ⟨other, c⟩ := c
    rw [addAll, List.foldl_cons, ← addAll, ih]
    -- the first contribution is the first under its own key and leaves all others
    by_cases h : other = key
    · subst h
      rw [under_cons_self, List.foldl_cons, get?_addTo_self]
    · rw [under_cons_of_ne c cs h, get?_addTo_of_ne c target (Ne.symm h)]

/-- Contributions added one after the other to nothing make their object. -/
theorem addAll_nil (cs : List (String × Contribution)) : addAll [] cs = assemble cs :=
  Dict.ext_get? (sorted_addAll Dict.sorted_nil cs) (sorted_assemble cs) fun key => by
    rw [get?_addAll, get?_assemble, settled, Dict.get?_nil]

end Composition

end ItemComposition
