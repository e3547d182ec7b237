import ItemComposition.Expr.Eval

/-!
# Subexpressions and their positions

A position says which part to go to at each level, counted from the left. In the lexicographic order
a position comes before those below it, and those below it come before what is further to the right:
this is the order in which an expression is gone through, parents first and from left to right.

## Key results

- `parts_induction`: what follows for an expression from its parts
- `mem_subterms_iff`: the subexpressions are what there is at a position
- `findSome?_subterms_eq_some_iff`: the first subexpression of a kind is the one at the least position
-/

namespace ItemComposition.Expr

universe u

/-- The parts of an expression, from left to right. -/
def parts : Expr → List Expr
  | .literal _ | .ident _ => []
  | .member target _ => [target]
  | .index target key => [target, key]
  | .array items => items
  | .object entries => entries.map Prod.snd
  | .unary _ operand => [operand]
  | .binary _ lhs rhs => [lhs, rhs]
  | .conditional condition onTrue onFalse => [condition, onTrue, onFalse]

/-- The subexpression at a position. -/
def at? (e : Expr) : List Nat → Option Expr
  | [] => some e
  | i :: rest =>
    match e.parts[i]? with
    | some p => p.at? rest
    | none => none

variable {e p q : Expr}

theorem sizeOf_lt_of_mem_parts (h : p ∈ e.parts) : sizeOf p < sizeOf e := by
  cases e with
  | literal | ident => cases h
  | array items =>
    have hLt : sizeOf p < sizeOf items := List.sizeOf_lt_of_mem h
    simp only [array.sizeOf_spec]
    omega
  | object entries =>
    obtain ⟨entry, hEntry, rfl⟩ := List.mem_map.1 h
    have hLt := List.sizeOf_lt_of_mem hEntry
    have hSecond : sizeOf entry.2 < sizeOf entry := by
      cases entry
      simp only [Prod.mk.sizeOf_spec]
      omega
    simp only [object.sizeOf_spec]
    omega
  | member | index | unary | binary | conditional =>
    simp only [parts, List.mem_cons, List.not_mem_nil, or_false] at h
    rcases h with rfl | rfl | rfl <;> simp <;> omega

/-- What holds of an expression if it holds of all its parts holds of every expression. -/
theorem parts_induction {P : Expr → Prop} (step : ∀ e, (∀ p ∈ e.parts, P p) → P e) (e : Expr) :
    P e :=
  step e fun p _ => parts_induction step p
  termination_by sizeOf e
  decreasing_by exact sizeOf_lt_of_mem_parts ‹_›

/-! ## Subexpressions -/

theorem subtermsOfItems_eq (items : List Expr) :
    subtermsOfItems items = items.flatMap subterms := by
  induction items with
  | nil => rfl
  | cons item rest ih => rw [subtermsOfItems, List.flatMap_cons, ih]

theorem subtermsOfEntries_eq (entries : List (String × Expr)) :
    subtermsOfEntries entries = (entries.map Prod.snd).flatMap subterms := by
  induction entries with
  | nil => rfl
  | cons entry rest ih => rw [subtermsOfEntries, List.map_cons, List.flatMap_cons, ih]

/-- An expression comes before the subexpressions of its parts. -/
theorem subterms_eq (e : Expr) : e.subterms = e :: e.parts.flatMap subterms := by
  cases e with
  | literal | ident => rfl
  | array items => rw [subterms, subtermsOfItems_eq, parts]
  | object entries => rw [subterms, subtermsOfEntries_eq, parts]
  | member | index | unary | binary | conditional => simp [subterms, parts]

theorem mem_subterms_self (e : Expr) : e ∈ e.subterms := by
  rw [subterms_eq]
  exact List.mem_cons_self

theorem mem_subterms_of_part (hPart : p ∈ e.parts) (h : q ∈ p.subterms) : q ∈ e.subterms := by
  rw [subterms_eq]
  exact List.mem_cons_of_mem _ (List.mem_flatMap.2 ⟨p, hPart, h⟩)

/-- What occurs in a subexpression occurs in the expression. -/
theorem mem_subterms_trans (hp : p ∈ e.subterms) (hq : q ∈ p.subterms) : q ∈ e.subterms := by
  induction e using parts_induction with
  | step e ih =>
    rw [subterms_eq, List.mem_cons, List.mem_flatMap] at hp
    rcases hp with rfl | ⟨part, hPart, hp⟩
    · exact hq
    · exact mem_subterms_of_part hPart (ih part hPart hp)

/-! ## Positions -/

theorem at?_cons_eq_some_iff {i : Nat} {rest : List Nat} :
    e.at? (i :: rest) = some q ↔ ∃ p, e.parts[i]? = some p ∧ p.at? rest = some q := by
  rw [at?]
  cases e.parts[i]? <;> simp

theorem mem_subterms_iff : q ∈ e.subterms ↔ ∃ pos, e.at? pos = some q := by
  induction e using parts_induction with
  | step e ih =>
    rw [subterms_eq, List.mem_cons, List.mem_flatMap]
    constructor
    · rintro (rfl | ⟨p, hPart, hq⟩)
      · exact ⟨[], rfl⟩
      · obtain ⟨i, hi⟩ := List.mem_iff_getElem?.1 hPart
        obtain ⟨pos, hPos⟩ := (ih p hPart).1 hq
        exact ⟨i :: pos, at?_cons_eq_some_iff.2 ⟨p, hi, hPos⟩⟩
    · rintro ⟨pos, hPos⟩
      cases pos with
      | nil => exact .inl (Option.some.inj hPos).symm
      | cons i rest =>
        obtain ⟨p, hi, hRest⟩ := at?_cons_eq_some_iff.1 hPos
        -- a position is the number of a part and a position in it
        have hPart := List.mem_of_getElem? hi
        exact .inr ⟨p, hPart, (ih p hPart).2 ⟨rest, hRest⟩⟩

/-- The first value in lists that stand one after the other is the first one in the first list that has
one. -/
theorem findSome?_flatMap_eq_some_iff {α β γ : Type u} {xs : List α} {g : α → List β}
    {f : β → Option γ} {c : γ} :
    (xs.flatMap g).findSome? f = some c ↔
      ∃ (i : Nat) (x : α), xs[i]? = some x ∧ (g x).findSome? f = some c ∧
        ∀ j < i, ∀ y, xs[j]? = some y → (g y).findSome? f = none := by
  induction xs with
  | nil => simp
  | cons x xs ih =>
    rw [List.flatMap_cons, List.findSome?_append]
    cases hFirst : (g x).findSome? f with
    -- the first list has a value: no index but zero can be meant
    | some c' =>
      rw [Option.some_or]
      constructor
      · rintro ⟨⟩
        exact ⟨0, x, rfl, hFirst, nofun⟩
      · rintro ⟨i, y, hi, hy, hLeft⟩
        cases i with
        | zero =>
          obtain rfl := Option.some.inj hi
          exact hFirst.symm.trans hy
        | succ i => cases hFirst.symm.trans (hLeft 0 (Nat.succ_pos i) x rfl)
    -- the first list has none, so the indices of the others move by one
    | none =>
      rw [Option.none_or, ih]
      constructor
      · rintro ⟨i, y, hi, hy, hLeft⟩
        refine ⟨i + 1, y, hi, hy, fun j hj z hz => ?_⟩
        cases j with
        | zero =>
          obtain rfl := Option.some.inj hz
          exact hFirst
        | succ j => exact hLeft j (Nat.lt_of_succ_lt_succ hj) z hz
      · rintro ⟨i, y, hi, hy, hLeft⟩
        cases i with
        | zero =>
          obtain rfl := Option.some.inj hi
          cases hFirst.symm.trans hy
        | succ i => exact ⟨i, y, hi, hy, fun j hj => hLeft (j + 1) (Nat.succ_lt_succ hj)⟩

/-- The first subexpression on which a function has a value, parents first and from left to right, is
the one at the least position. -/
theorem findSome?_subterms_eq_some_iff {α : Type} {f : Expr → Option α} {a : α} :
    e.subterms.findSome? f = some a ↔
      ∃ pos p, e.at? pos = some p ∧ f p = some a ∧
        ∀ pos' < pos, ∀ p', e.at? pos' = some p' → f p' = none := by
  induction e using parts_induction generalizing a with
  | step e ih =>
    rw [subterms_eq, List.findSome?_cons]
    cases hSelf : f e with
    | some b =>
      -- nothing comes before the expression itself
      constructor
      · rintro ⟨⟩
        exact ⟨[], e, rfl, hSelf, fun pos' hLt => absurd hLt (List.not_lt_nil pos')⟩
      · rintro ⟨pos, p, hPos, hp, hBefore⟩
        cases pos with
        | nil => rw [← hp, ← Option.some.inj hPos, hSelf]
        | cons i rest =>
          have hNone := hBefore [] (List.nil_lt_cons i rest) e rfl
          rw [hSelf] at hNone
          cases hNone
    | none =>
      dsimp only
      rw [findSome?_flatMap_eq_some_iff]
      constructor
      · rintro ⟨i, x, hi, hx, hLeft⟩
        obtain ⟨pos, p, hPos, hp, hBefore⟩ := (ih x (List.mem_of_getElem? hi)).1 hx
        refine ⟨i :: pos, p, at?_cons_eq_some_iff.2 ⟨x, hi, hPos⟩, hp, fun pos' hLt p' hp' => ?_⟩
        cases pos' with
        | nil => rw [← Option.some.inj hp', hSelf]
        | cons j rest =>
          obtain ⟨y, hj, hRest⟩ := at?_cons_eq_some_iff.1 hp'
          rcases List.cons_lt_cons_iff.1 hLt with hji | ⟨rfl, hBelow⟩
          · have hNone := List.findSome?_eq_none_iff.1 (hLeft j hji y hj)
            exact hNone p' (mem_subterms_iff.2 ⟨rest, hRest⟩)
          · obtain rfl := Option.some.inj (hi.symm.trans hj)
            exact hBefore rest hBelow p' hRest
      · rintro ⟨pos, p, hPos, hp, hBefore⟩
        cases pos with
        | nil =>
          rw [← Option.some.inj hPos, hSelf] at hp
          cases hp
        | cons i rest =>
          obtain ⟨x, hi, hRest⟩ := at?_cons_eq_some_iff.1 hPos
          refine ⟨i, x, hi, (ih x (List.mem_of_getElem? hi)).2 ⟨rest, p, hRest, hp, ?_⟩, ?_⟩
          · intro pos' hLt p' hp'
            exact hBefore (i :: pos') (List.cons_lt_cons_iff.2 (.inr ⟨rfl, hLt⟩)) p'
              (at?_cons_eq_some_iff.2 ⟨x, hi, hp'⟩)
          · intro j hji y hj
            rw [List.findSome?_eq_none_iff]
            intro p' hp'
            obtain ⟨pos', hPos'⟩ := mem_subterms_iff.1 hp'
            exact hBefore (j :: pos') (List.cons_lt_cons_iff.2 (.inl hji)) p'
              (at?_cons_eq_some_iff.2 ⟨y, hj, hPos'⟩)

end ItemComposition.Expr
