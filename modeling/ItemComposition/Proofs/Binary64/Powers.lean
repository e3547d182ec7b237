import ItemComposition.Proofs.Binary64.Operations

/-!
# Products and powers of doubles from one up

Rounding keeps numbers in their order, so a product of doubles from one up does not fall when its
factors grow. Beyond the greatest double it is infinite and stays so; only zero times an infinity is
no number.

A power is made by repeated squaring with one rounding for each product, and the products for one
exponent are not those for the next. The power does not fall with the exponent for all that. The ones
at the end of an exponent turn into zeros with a one before them, and the squares for these ones
together are at most the square for the one that takes their place.

## Key results

- `Rounded.le`: results are in the order of what is rounded
- `mul_le_mul_of_atLeast`: products
- `power_le_power_succ`: powers
-/

namespace ItemComposition.Binary64

open Float.Model Float.Model.UnpackedFloat

variable {x y z w : Float} {c r r' : ℚ}

/-! ## Doubles from a number up -/

/-- A double that is a number from `c` up or the infinity above all numbers. -/
inductive AtLeast (c : ℚ) (x : Float) : Prop
  | finite (isFinite : x.isFinite = true) (le_value : c ≤ value x)
  | infinite (parts_eq : parts x = .infinite false)

theorem atLeast_iff :
    AtLeast c x ↔ ∃ a, extended? x = some a ∧ ((c : WithTop ℚ) : WithBot (WithTop ℚ)) ≤ a := by
  constructor
  · rintro (⟨isFinite, le_value⟩ | parts_eq)
    · exact ⟨_, extended?_of_isFinite isFinite, by simpa using le_value⟩
    · exact ⟨_, extended?_of_infinite parts_eq, le_top⟩
  · rintro ⟨a, ha, hLe⟩
    -- no value is read off "not a number", and minus infinity is below every bound
    cases hParts : parts x with
    | nan =>
      rw [extended?, hParts] at ha
      cases ha
    | infinite negative =>
      cases negative with
      | false => exact .infinite hParts
      | true =>
        rw [extended?, hParts] at ha
        cases ha
        simp at hLe
    | finite n m e =>
      have hFinite := isFinite_of_parts hParts
      rw [extended?_of_isFinite hFinite] at ha
      cases ha
      exact .finite hFinite (by simpa using hLe)

namespace AtLeast

theorem trans (hx : AtLeast c x) (h : x ≤ y) : AtLeast c y := by
  obtain ⟨a, ha, hLe⟩ := atLeast_iff.1 hx
  obtain ⟨a', b, ha', hb, hab⟩ := le_iff.1 h
  rw [ha] at ha'
  cases ha'
  exact atLeast_iff.2 ⟨b, hb, hLe.trans hab⟩

theorem le_infinite (hx : AtLeast c x) (hy : parts y = .infinite false) : x ≤ y := by
  obtain ⟨a, ha, -⟩ := atLeast_iff.1 hx
  exact le_iff.2 ⟨a, ⊤, ha, extended?_of_infinite hy, le_top⟩

theorem refl_le (hx : AtLeast c x) : x ≤ x := by
  obtain ⟨a, ha, -⟩ := atLeast_iff.1 hx
  exact le_iff.2 ⟨a, a, ha, ha, le_refl a⟩

/-- The infinity is not below a number. -/
theorem isFinite_of_le (hx : AtLeast c x) (h : x ≤ y) (hy : y.isFinite = true) :
    x.isFinite = true := by
  cases hx with
  | finite isFinite _ => exact isFinite
  | infinite parts_eq =>
    rw [le_iff, extended?_of_infinite parts_eq, extended?_of_isFinite hy] at h
    simp at h

theorem le_value_of_isFinite (hx : AtLeast c x) (hFinite : x.isFinite = true) : c ≤ value x := by
  cases hx with
  | finite isFinite le_value => exact le_value
  | infinite parts_eq =>
    obtain ⟨n, m, e, hParts⟩ := exists_parts_of_isFinite hFinite
    rw [parts_eq] at hParts
    cases hParts

theorem mono {c' : ℚ} (hx : AtLeast c x) (h : c' ≤ c) : AtLeast c' x := by
  cases hx with
  | finite isFinite le_value => exact .finite isFinite (h.trans le_value)
  | infinite parts_eq => exact .infinite parts_eq

end AtLeast

theorem parts_one : parts 1 = .finite false (2 ^ 52) (-52) := by decide +kernel

theorem value_one : (1 : Float).isFinite = true ∧ value 1 = 1 := by
  refine ⟨isFinite_of_parts parts_one, ?_⟩
  rw [value, parts_one]
  norm_num [signed]

theorem atLeast_one : AtLeast 1 1 := .finite value_one.1 value_one.2.ge

theorem one_le_iff : 1 ≤ x ↔ AtLeast 1 x := by
  refine ⟨atLeast_one.trans, fun hx => ?_⟩
  obtain ⟨a, ha, hLe⟩ := atLeast_iff.1 hx
  refine le_iff.2 ⟨_, a, extended?_of_isFinite value_one.1, ha, ?_⟩
  rwa [value_one.2]

/-! ## Rounded results -/

theorem Rounded.atLeast (h : Rounded r z) (hc : 0 ≤ c) (hFew : FewBits c) (hr : c ≤ r) :
    AtLeast c z := by
  cases h with
  | finite inRange isFinite value_eq =>
    refine .finite isFinite ?_
    rw [value_eq, ← nearest_eq_self hFew]
    exact nearest_mono hr
  | overflow beyond parts_eq =>
    have hSign : ¬r < 0 := not_lt.2 (hc.trans hr)
    rw [decide_eq_false hSign] at parts_eq
    exact .infinite parts_eq

/-- Of two results from zero up, the one of the greater number is not the smaller one. -/
theorem Rounded.le (h : Rounded r x) (h' : Rounded r' y) (hr : 0 ≤ r) (hLe : r ≤ r') : x ≤ y := by
  have hx := h.atLeast (le_refl 0) fewBits_zero hr
  cases h' with
  | finite inRange isFinite value_eq =>
    -- what is in range for the greater number is in range for the smaller one
    have hRange : |r| < limit := by
      rw [abs_of_nonneg (hr.trans hLe)] at inRange
      rw [abs_of_nonneg hr]
      exact hLe.trans_lt inRange
    rw [le_iff_value (h.isFinite_iff.2 hRange) isFinite, h.value_eq hRange, value_eq]
    exact nearest_mono hLe
  | overflow beyond parts_eq =>
    have hSign : ¬r' < 0 := not_lt.2 (hr.trans hLe)
    rw [decide_eq_false hSign] at parts_eq
    exact hx.le_infinite parts_eq

/-! ## Sums -/

theorem unpack_of_infinite (hx : parts x = .infinite false) :
    x.toModel.unpack = .infinity .positive := by
  rw [parts_eq] at hx
  cases hu : x.toModel.unpack with
  | infinity s =>
    rw [hu] at hx
    cases s with
    | negative => cases hx
    | positive => rfl
  | _ =>
    rw [hu] at hx
    cases hx

theorem Numeric.add_infinity {u : UnpackedFloat} (h : Numeric u) (s : Sign) :
    UnpackedFloat.add Format.binary64 u (.infinity s) = .infinity s ∧
      UnpackedFloat.add Format.binary64 (.infinity s) u = .infinity s := by
  cases h <;> exact ⟨rfl, rfl⟩

/-- Doubles from zero up have a sum from zero up. -/
theorem AtLeast.add (hx : AtLeast 0 x) (hy : AtLeast 0 y) : AtLeast 0 (x + y) := by
  have hAdd : x + y = ⟨Float.Model.pack (UnpackedFloat.add Format.binary64 x.toModel.unpack
    y.toModel.unpack)⟩ := rfl
  -- an infinity stays one whatever is added to it, for the other infinity is not at least zero
  cases hx with
  | infinite parts_eq =>
    rw [hAdd, unpack_of_infinite parts_eq]
    cases hy with
    | infinite parts_eq =>
      rw [unpack_of_infinite parts_eq]
      exact .infinite rfl
    | finite isFinite le_value =>
      rw [((numeric_unpack isFinite).add_infinity .positive).2]
      exact .infinite rfl
  | finite isFinite le_value =>
    cases hy with
    | infinite parts_eq =>
      rw [hAdd, unpack_of_infinite parts_eq, ((numeric_unpack isFinite).add_infinity .positive).1]
      exact .infinite rfl
    | finite isFinite' le_value' =>
      exact (rounded_add isFinite isFinite').atLeast (le_refl 0) fewBits_zero
        (add_nonneg le_value le_value')

/-! ## Products -/

theorem mul_swap (x y : Float) : x * y = y * x := by
  have hSign : ∀ s s' : Sign, s * s' = s' * s := by
    intro s s'
    cases s <;> cases s' <;> rfl
  have hModel : ∀ u v : UnpackedFloat, UnpackedFloat.mul Format.binary64 u v =
      UnpackedFloat.mul Format.binary64 v u := by
    intro u v
    cases u <;> cases v <;> simp [UnpackedFloat.mul, hSign, Nat.mul_comm, Int.add_comm]
  show (⟨Float.Model.pack (UnpackedFloat.mul Format.binary64 x.toModel.unpack
    y.toModel.unpack)⟩ : Float) = _
  rw [hModel]
  rfl

/-- A product with an infinity is infinite, unless the other factor is zero. -/
theorem parts_mul_of_infinite (hx : AtLeast 0 x) (hy : parts y = .infinite false) :
    parts (x * y) = .infinite false ∨
      (x.isFinite = true ∧ value x = 0 ∧ parts (x * y) = .nan) := by
  have hMul : x * y = ⟨Float.Model.pack (UnpackedFloat.mul Format.binary64 x.toModel.unpack
      (.infinity .positive))⟩ := by
    rw [← unpack_of_infinite hy]
    rfl
  rw [hMul]
  cases hx with
  | infinite parts_eq =>
    rw [unpack_of_infinite parts_eq]
    exact .inl rfl
  -- infinity times a number is infinity but for zero, which gives "not a number"
  | finite isFinite le_value =>
    have hValue := value_eq_rational x
    have hNumeric := numeric_unpack isFinite
    generalize x.toModel.unpack = u at hValue hNumeric ⊢
    cases hNumeric with
    | zero s =>
      rw [UnpackedFloat.mul]
      exact .inr ⟨isFinite, hValue, rfl⟩
    | finite s m e pos canonical =>
      cases s with
      | positive =>
        rw [UnpackedFloat.mul]
        exact .inl rfl
      | negative =>
        have hNeg : value x < 0 := by
          rw [hValue]
          exact neg_neg_of_pos (by positivity)
        exact absurd le_value (not_le.2 hNeg)

/-- A product that is not one of two numbers is infinite, or no number where zero meets an
infinity. -/
theorem AtLeast.mul_cases (hx : AtLeast 0 x) (hy : AtLeast 0 y) :
    (x.isFinite = true ∧ y.isFinite = true) ∨ parts (x * y) = .infinite false ∨
      (parts (x * y) = .nan ∧
        ((x.isFinite = true ∧ value x = 0) ∨ (y.isFinite = true ∧ value y = 0))) := by
  cases hy with
  | infinite parts_eq =>
    rcases parts_mul_of_infinite hx parts_eq with hEq | ⟨hFinite, hZero, hEq⟩
    · exact .inr (.inl hEq)
    · exact .inr (.inr ⟨hEq, .inl ⟨hFinite, hZero⟩⟩)
  | finite isFinite le_value =>
    cases hx with
    | finite isFinite' le_value' => exact .inl ⟨isFinite', isFinite⟩
    | infinite parts_eq =>
      -- the product is the same either way round, so the lemma above serves both factors
      rw [mul_swap]
      rcases parts_mul_of_infinite (.finite isFinite le_value) parts_eq with hEq | ⟨-, hZero, hEq⟩
      · exact .inr (.inl hEq)
      · exact .inr (.inr ⟨hEq, .inr ⟨isFinite, hZero⟩⟩)

/-- Doubles from one up are not zero, so their product is a number or infinite. -/
theorem AtLeast.mul_cases_of_one (hx : AtLeast 1 x) (hy : AtLeast 1 y) :
    (x.isFinite = true ∧ y.isFinite = true) ∨ parts (x * y) = .infinite false := by
  rcases (hx.mono zero_le_one).mul_cases (hy.mono zero_le_one) with
    hBoth | hEq | ⟨-, ⟨hFinite, hZero⟩ | ⟨hFinite, hZero⟩⟩
  · exact .inl hBoth
  · exact .inr hEq
  · linarith [hx.le_value_of_isFinite hFinite]
  · linarith [hy.le_value_of_isFinite hFinite]

theorem AtLeast.mul (hx : AtLeast 1 x) (hy : AtLeast 1 y) : AtLeast 1 (x * y) := by
  rcases hx.mul_cases_of_one hy with ⟨hFinite, hFinite'⟩ | hEq
  · have hProduct : 1 ≤ value x * value y :=
      one_le_mul_of_one_le_of_one_le (hx.le_value_of_isFinite hFinite)
        (hy.le_value_of_isFinite hFinite')
    have hFew : FewBits 1 := by exact_mod_cast fewBits_natCast (n := 1) (by norm_num)
    exact (rounded_mul hFinite hFinite').atLeast zero_le_one hFew hProduct
  · exact .infinite hEq

/-- A product does not fall when its factors grow. -/
theorem mul_le_mul_of_atLeast (hx : AtLeast 1 x) (hz : AtLeast 1 z) (hxy : x ≤ y) (hzw : z ≤ w) :
    x * z ≤ y * w := by
  rcases (hx.trans hxy).mul_cases_of_one (hz.trans hzw) with ⟨hFinite, hFinite'⟩ | hEq
  · have hxFinite := hx.isFinite_of_le hxy hFinite
    have hzFinite := hz.isFinite_of_le hzw hFinite'
    have hxValue := hx.le_value_of_isFinite hxFinite
    have hzValue := hz.le_value_of_isFinite hzFinite
    have hxLe := (le_iff_value hxFinite hFinite).1 hxy
    have hzLe := (le_iff_value hzFinite hFinite').1 hzw
    exact (rounded_mul hxFinite hzFinite).le (rounded_mul hFinite hFinite') (by positivity)
      (mul_le_mul hxLe hzLe (by positivity) (by linarith))
  · exact (hx.mul hz).le_infinite hEq

/-- Multiplied by one, a double stays what it is. -/
theorem AtLeast.le_one_mul (hx : AtLeast 1 x) : x ≤ 1 * x := by
  obtain ⟨hOne, hOneValue⟩ := value_one
  rcases atLeast_one.mul_cases_of_one hx with ⟨-, hFinite⟩ | hEq
  · have hRounded := rounded_mul hOne hFinite
    rw [hOneValue, one_mul] at hRounded
    obtain ⟨hProduct, hValue⟩ := hRounded.exact (fewBits_value x) (abs_value_lt_limit hFinite)
    exact (le_iff_value hFinite hProduct).2 hValue.ge
  · exact hx.le_infinite hEq

/-! ## Powers -/

/-- One step of repeated squaring. -/
theorem power_go_eq (n : ℕ) (square acc : Float) :
    power.go n square acc = if n = 0 then acc else
      power.go (n / 2) (square * square) (if n % 2 = 1 then acc * square else acc) := by
  rw [power.go]
  by_cases hn : n = 0
  · rw [if_pos hn, if_pos hn]
  rw [if_neg hn, if_neg hn]
  by_cases hHalf : n / 2 = 0
  · simp only [hHalf, if_true]
    rw [power.go, if_pos rfl]
  · simp only [hHalf, if_false]

theorem power_go_zero (square acc : Float) : power.go 0 square acc = acc := by
  rw [power_go_eq, if_pos rfl]

theorem power_go_double (k : ℕ) (square acc : Float) :
    power.go (2 * k) square acc = power.go k (square * square) acc := by
  rw [power_go_eq]
  rcases Nat.eq_zero_or_pos k with rfl | hPos
  · rw [if_pos rfl, power_go_zero]
  · have hHalf : 2 * k / 2 = k := by omega
    have hEven : ¬2 * k % 2 = 1 := by omega
    rw [if_neg (by omega), if_neg hEven, hHalf]

theorem power_go_double_add_one (k : ℕ) (square acc : Float) :
    power.go (2 * k + 1) square acc = power.go k (square * square) (acc * square) := by
  have hHalf : (2 * k + 1) / 2 = k := by omega
  have hOdd : (2 * k + 1) % 2 = 1 := by omega
  rw [power_go_eq, if_neg (by omega), if_pos hOdd, hHalf]

/-- What has been multiplied so far counts for the result. -/
theorem power_go_mono (n : ℕ) (hs : AtLeast 1 x) (hy : AtLeast 1 y) (h : y ≤ z) :
    power.go n x y ≤ power.go n x z := by
  induction n using Nat.evenOddRec generalizing x y z with
  | h0 =>
    rw [power_go_zero, power_go_zero]
    exact h
  | h_even k ih =>
    rw [power_go_double, power_go_double]
    exact ih (hs.mul hs) hy h
  | h_odd k ih =>
    rw [power_go_double_add_one, power_go_double_add_one]
    exact ih (hs.mul hs) (hy.mul hs) (mul_le_mul_of_atLeast hy hs h hs.refl_le)

/-- The greater exponent begins afresh, while the other one has multiplied what the next square is
no less than. -/
theorem power_go_le_succ (n : ℕ) (hx : AtLeast 1 x) (hy : AtLeast 1 y) (h : y ≤ x) :
    power.go n x y ≤ power.go (n + 1) x 1 := by
  induction n using Nat.evenOddRec generalizing x y with
  | h0 =>
    rw [power_go_zero, power_go_double_add_one 0, power_go_zero]
    exact trans_le h hx.le_one_mul
  | h_even k ih =>
    -- the exponents differ in the last bit only
    rw [power_go_double, power_go_double_add_one]
    exact power_go_mono k (hx.mul hx) hy (trans_le h hx.le_one_mul)
  | h_odd k ih =>
    -- the one at the end turns into a zero
    have hNext : 2 * k + 1 + 1 = 2 * (k + 1) := by ring
    rw [hNext, power_go_double, power_go_double_add_one]
    exact ih (hx.mul hx) (hy.mul hx) (mul_le_mul_of_atLeast hy hx h hx.refl_le)

/-- A power of a base from one up does not fall with the exponent. -/
theorem power_le_power_succ (hx : 1 ≤ x) (n : ℕ) : power x n ≤ power x (n + 1) :=
  power_go_le_succ n (one_le_iff.1 hx) atLeast_one hx

theorem atLeast_power (hx : 1 ≤ x) (n : ℕ) : AtLeast 1 (power x n) := by
  induction n with
  | zero =>
    rw [power, power_go_zero]
    exact atLeast_one
  | succ n ih => exact ih.trans (power_le_power_succ hx n)

end ItemComposition.Binary64
