import ItemComposition.Proofs.Json.Equality

/-!
# Equality in expressions

The operators `==` and `!=` answer on all operands, and `in` finds the elements of an array that
are equal to a value by `==`. Two numbers are compared as doubles, so whole numbers that are too
large to be doubles may be equal to their neighbours. Values of all other kinds are compared part by
part, and a number inside of them never equals one of another value.

## Key results

- `eval_binary_eq`, `eval_binary_notEq`, `eval_binary_contains`: the operators on values
- `eval_equality`: which values are equal
-/

namespace ItemComposition.Expr

variable {env a b : Json} {l r : Expr}

theorem eval_binary_eq (hl : l.eval env = .ok a) (hr : r.eval env = .ok b) :
    (Expr.binary .eq l r).eval env = .ok (.bool (a.looseEq b)) := by
  simp only [eval, hl, hr, applyBinary]

theorem eval_binary_notEq (hl : l.eval env = .ok a) (hr : r.eval env = .ok b) :
    (Expr.binary .notEq l r).eval env = .ok (.bool (!a.looseEq b)) := by
  simp only [eval, hl, hr, applyBinary]

theorem eval_binary_contains {items : List Json} (hl : l.eval env = .ok a)
    (hr : r.eval env = .ok (.arr items)) :
    (Expr.binary .contains l r).eval env = .ok (.bool (items.any fun v => v.looseEq a)) := by
  simp only [eval, hl, hr, applyBinary, within]

/-- What the answer on two values says of them. -/
structure Equality (a b : Json) (same : Bool) : Prop where
  /-- Two numbers are equal if they become doubles of one value. -/
  asDoubles : ∀ m n, a = .num m → b = .num n →
    (same = true ↔ Binary64.value m.toFloat = Binary64.value n.toFloat)
  /-- So numbers of one value are equal, whole numbers and doubles alike. -/
  sameValue : ∀ m n, a = .num m → b = .num n → m.SameValue n → same = true
  /-- Whole numbers of at most 53 bits are equal only if they are the same. -/
  whole : ∀ i j, a = .int i → b = .int j → i.natAbs ≤ 2 ^ 53 → j.natAbs ≤ 2 ^ 53 →
    same = true → i = j
  /-- Values are equal if all numbers inside of them are of one form and one value. -/
  alike : Json.EqualBy Number.SameForm a b → same = true
  /-- Unless both are numbers, they are equal only if the numbers inside of them are of one
  value. -/
  inside : (∀ m n, ¬(a = .num m ∧ b = .num n)) → same = true → Json.EqualBy Number.SameValue a b

theorem equality_looseEq (ha : a.Legal) (hb : b.Legal) : Equality a b (a.looseEq b) where
  asDoubles := by
    rintro m n rfl rfl
    cases ha with
    | num hm =>
      cases hb with
      | num hn => exact Json.looseEq_num_iff hm hn
  sameValue := by
    rintro m n rfl rfl h
    cases ha with
    | num hm =>
      cases hb with
      | num hn => exact (Json.looseEq_num_iff hm hn).2 (Number.value_toFloat_of_value_eq hm hn h)
  whole := by
    rintro i j rfl rfl hi hj h
    cases ha with
    | num hm =>
      cases hb with
      | num hn => exact Number.eq_of_value_toFloat hi hj ((Json.looseEq_num_iff hm hn).1 h)
  alike := Json.looseEq_of_equalBy ha hb
  inside := Json.equalBy_of_looseEq ha hb

/-- On two values, `==` and `!=` give opposite answers, and `in` on an array says whether some
element is equal to the value by `==`. -/
theorem eval_equality (hl : l.eval env = .ok a) (hr : r.eval env = .ok b) (ha : a.Legal)
    (hb : b.Legal) :
    ∃ same, (Expr.binary .eq l r).eval env = .ok (.bool same) ∧
      (Expr.binary .notEq l r).eval env = .ok (.bool (!same)) ∧ Equality a b same ∧
      ∀ items, b = .arr items → ∃ found,
        (Expr.binary .contains l r).eval env = .ok (.bool found) ∧
          (found = true ↔ ∃ v ∈ items,
            (Expr.binary .eq (.literal v) l).eval env = .ok (.bool true)) := by
  refine ⟨a.looseEq b, eval_binary_eq hl hr, eval_binary_notEq hl hr, equality_looseEq ha hb, ?_⟩
  rintro items rfl
  refine ⟨_, eval_binary_contains hl hr, ?_⟩
  -- an element is found by the equality of the operator `==`, with the element on the left
  have hElement : ∀ v : Json, (Expr.binary .eq (.literal v) l).eval env =
      .ok (.bool (v.looseEq a)) := fun v => eval_binary_eq (by rw [eval]) hl
  simp only [List.any_eq_true, hElement, Except.ok.injEq, Json.bool.injEq]

/-- A whole number, and a text and a double that are written alike. -/
def answers : Json :=
  .obj [("answer", .int 42), ("answers", .arr [.str "42", .num (.float 42.0)])]

theorem eval_equality_answers :
    (Expr.ident "answer").eval answers = .ok (.int 42) ∧
      (Expr.ident "answers").eval answers = .ok (.arr [.str "42", .num (.float 42.0)]) ∧
      (Json.int 42).Legal ∧ (Json.arr [.str "42", .num (.float 42.0)]).Legal ∧
      ∃ same, (Expr.binary .eq (.ident "answer") (.ident "answers")).eval answers =
          .ok (.bool same) ∧
        (Expr.binary .notEq (.ident "answer") (.ident "answers")).eval answers =
          .ok (.bool (!same)) ∧
        Equality (.int 42) (.arr [.str "42", .num (.float 42.0)]) same ∧
        ∀ items, Json.arr [.str "42", .num (.float 42.0)] = .arr items → ∃ found,
          (Expr.binary .contains (.ident "answer") (.ident "answers")).eval answers =
              .ok (.bool found) ∧
            (found = true ↔ ∃ v ∈ items,
              (Expr.binary .eq (.literal v) (.ident "answer")).eval answers =
                .ok (.bool true)) := by
  have hAnswer : (Expr.ident "answer").eval answers = .ok (.int 42) := rfl
  have hAnswers : (Expr.ident "answers").eval answers =
      .ok (.arr [.str "42", .num (.float 42.0)]) := rfl
  have hLegal : (Json.int 42).Legal := .num (.int (by decide))
  -- the double of the list is a finite one
  have hAll : (Json.arr [.str "42", .num (.float 42.0)]).Legal := by
    refine .arr fun v hv => ?_
    simp only [List.mem_cons, List.not_mem_nil, or_false] at hv
    rcases hv with rfl | rfl
    · exact .str
    · exact .num (.float (by decide))
  exact ⟨hAnswer, hAnswers, hLegal, hAll, eval_equality hAnswer hAnswers hLegal hAll⟩

/-- Two whole numbers that become the same double. -/
def neighbours : Json := .obj [("odd", .int 9007199254740993), ("even", .int 9007199254740992)]

/-- Two numbers may be equal by `==` that are not equal in value. -/
theorem eval_eq_neighbours :
    (Expr.binary .eq (.ident "odd") (.ident "even")).eval neighbours = .ok (.bool true) ∧
      (Json.int 9007199254740993).Legal ∧ (Json.int 9007199254740992).Legal ∧
      ¬Json.EqualBy Number.SameValue (.int 9007199254740993) (.int 9007199254740992) := by
  refine ⟨?_, .num (.int (by decide)), .num (.int (by decide)), fun h => ?_⟩
  · have hOdd : (Expr.ident "odd").eval neighbours = .ok (.int 9007199254740993) := rfl
    have hEven : (Expr.ident "even").eval neighbours = .ok (.int 9007199254740992) := rfl
    have hSame : (Json.int 9007199254740993).looseEq (.int 9007199254740992) = true := by decide
    rw [eval_binary_eq hOdd hEven, hSame]
  · cases h with
    | num h =>
      have hInt : (9007199254740993 : Int) = 9007199254740992 := Int.cast_injective (α := ℚ) h
      exact absurd hInt (by decide)

end ItemComposition.Expr
