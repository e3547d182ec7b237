import ItemComposition.Proofs.Binary64.Rounded

/-!
# Operations on doubles

The sum, the difference, the product and the quotient of two doubles that are numbers are the
doubles nearest to the exact results. The result is infinite exactly if the nearest double would be
greater than every double.

## Key results

- `rounded_add`, `rounded_sub`, `rounded_mul`, `rounded_div`: the four operations
- `value_neg`: the opposite is exact
- `Rounded.exact`: a result that some double stands for is exact
-/

namespace ItemComposition.Binary64

open Float.Model Float.Model.UnpackedFloat

variable {x y z : Float} {r : ℚ}

/-! ## Unpacked operands -/

/-- An unpacked double that is a number. -/
inductive Numeric : UnpackedFloat → Prop
  | zero (s : Sign) : Numeric (.zero s)
  | finite (s : Sign) (m : ℕ) (e : ℤ) (pos : 0 < m) (canonical : Canonical m e) :
    Numeric (.finite s m e pos)

/-- The exact value of an unpacked double; `0` for what is no number. -/
def rational : UnpackedFloat → ℚ
  | .finite s m e _ => withSign s (m * 2 ^ e)
  | _ => 0

theorem numeric_unpack (hx : x.isFinite = true) : Numeric x.toModel.unpack := by
  obtain ⟨n, m, e, hParts⟩ := exists_parts_of_isFinite hx
  have hCanonical := canonical_of_parts hParts
  rw [parts_eq] at hParts
  cases hu : x.toModel.unpack with
  | notANumber | infinity => rw [hu] at hParts; cases hParts
  | zero s => exact .zero s
  | finite s m e pos =>
    rw [hu] at hParts
    cases hParts
    exact .finite s m e pos hCanonical

theorem value_eq_rational (x : Float) : value x = rational x.toModel.unpack := by
  rw [value, parts_eq]
  cases x.toModel.unpack with
  | notANumber | infinity => rfl
  | zero s => cases s <;> simp [partsOf, rational, signed]
  | finite s m e pos => exact (withSign_mul s m e).symm

theorem Canonical.aligned {m : ℕ} {e : ℤ} (h : Canonical m e) : Aligned m e :=
  ⟨h.mantissa, h.low, h.leading⟩

variable {u v : UnpackedFloat}

/-- A double that is packed as it was unpacked. -/
theorem Numeric.rounded_pack (h : Numeric u) : Rounded (rational u) ⟨Float.Model.pack u⟩ := by
  cases h with
  | zero s => exact rounded_zero s
  | finite s m e pos canonical =>
    have hSelf : (m : ℚ) * 2 ^ e = nearest (m * 2 ^ e) := by
      refine (nearest_eq_self ⟨m, e, canonical.mantissa, canonical.low, ?_⟩).symm
      exact abs_of_nonneg (by positivity)
    have hRounded := canonical.aligned.rounded_pack s (by positivity) hSelf
    rwa [assembled, dif_neg (Nat.ne_of_gt pos)] at hRounded

theorem withSign_neg (s : Sign) (r : ℚ) : withSign (-s) r = -withSign s r := by
  cases s with
  | negative => exact (neg_neg r).symm
  | positive => rfl

theorem Numeric.neg (h : Numeric u) : Numeric u.neg := by
  cases h with
  | zero s => exact .zero _
  | finite s m e pos canonical => exact .finite _ m e pos canonical

theorem rational_neg (u : UnpackedFloat) : rational u.neg = -rational u := by
  cases u with
  | finite s m e pos => exact withSign_neg s _
  | _ => exact neg_zero.symm

/-! ## Sums and differences -/

/-- A mantissa is lengthened to go with a smaller exponent. -/
theorem shiftLeft_mul_two_pow (m : ℕ) {e t : ℤ} (h : t ≤ e) :
    ((m <<< (e - t).toNat : ℕ) : ℚ) * 2 ^ t = m * 2 ^ e := by
  obtain ⟨k, rfl⟩ := Int.le.dest h
  have hShift : (t + k - t).toNat = k := by omega
  rw [hShift, Nat.shiftLeft_eq, add_comm, two_pow_add, Nat.cast_mul, Nat.cast_pow, Nat.cast_ofNat,
    mul_assoc]

theorem apply_shiftLeft_mul (s : Sign) (m : ℕ) {e t : ℤ} (h : t ≤ e) :
    (s.apply ((m <<< (e - t).toNat : ℕ) : ℤ) : ℚ) * 2 ^ t = withSign s (m * 2 ^ e) := by
  rw [← shiftLeft_mul_two_pow m h]
  generalize m <<< (e - t).toNat = n
  cases s with
  | negative =>
    rw [Sign.apply, Int.cast_neg, Int.cast_natCast, neg_mul]
    rfl
  | positive =>
    rw [Sign.apply, Int.cast_natCast]
    rfl

theorem Numeric.rounded_add (hu : Numeric u) (hv : Numeric v) :
    Rounded (rational u + rational v)
      ⟨Float.Model.pack (UnpackedFloat.add Format.binary64 u v)⟩ := by
  cases hu with
  | zero s =>
    -- nothing is added: the other number comes out as it was, so no rounding takes place
    rw [show rational (.zero s) = 0 from rfl, zero_add]
    cases hv with
    | zero s' =>
      rw [UnpackedFloat.add]
      split <;> exact rounded_zero _
    | finite s' m' e' pos' canonical' => exact (Numeric.finite s' m' e' pos' canonical').rounded_pack
  | finite s m e pos canonical =>
    cases hv with
    | zero s' =>
      rw [show rational (.zero s') = 0 from rfl, add_zero]
      exact (Numeric.finite s m e pos canonical).rounded_pack
    | finite s' m' e' pos' canonical' =>
      -- both mantissas are brought to the smaller exponent, where their sum is exact: what comes
      -- after it is one rounding
      have hSum : rational (.finite s m e pos) + rational (.finite s' m' e' pos') =
          ((s.apply ((m <<< (e - min e e').toNat : ℕ) : ℤ) +
            s'.apply ((m' <<< (e' - min e e').toNat : ℕ) : ℤ) : ℤ) : ℚ) * 2 ^ min e e' := by
        rw [Int.cast_add, add_mul, apply_shiftLeft_mul s m (min_le_left e e'),
          apply_shiftLeft_mul s' m' (min_le_right e e')]
        rfl
      rw [hSum]
      exact rounded_normalize _ _ .positive

theorem Numeric.rounded_sub (hu : Numeric u) (hv : Numeric v) :
    Rounded (rational u - rational v)
      ⟨Float.Model.pack (UnpackedFloat.sub Format.binary64 u v)⟩ := by
  cases hu with
  | zero s =>
    -- taken from zero a number is its negation, and a negation rounds nothing
    rw [show rational (.zero s) = 0 from rfl, zero_sub, ← rational_neg]
    cases hv with
    | zero s' =>
      rw [UnpackedFloat.sub]
      split <;> exact rounded_zero _
    | finite s' m' e' pos' canonical' =>
      exact (Numeric.finite s' m' e' pos' canonical').neg.rounded_pack
  | finite s m e pos canonical =>
    cases hv with
    | zero s' =>
      rw [show rational (.zero s') = 0 from rfl, sub_zero]
      exact (Numeric.finite s m e pos canonical).rounded_pack
    | finite s' m' e' pos' canonical' =>
      -- at the smaller exponent the difference of the mantissas is exact too
      have hDifference : rational (.finite s m e pos) - rational (.finite s' m' e' pos') =
          ((s.apply ((m <<< (e - min e e').toNat : ℕ) : ℤ) -
            s'.apply ((m' <<< (e' - min e e').toNat : ℕ) : ℤ) : ℤ) : ℚ) * 2 ^ min e e' := by
        rw [Int.cast_sub, sub_mul, apply_shiftLeft_mul s m (min_le_left e e'),
          apply_shiftLeft_mul s' m' (min_le_right e e')]
        rfl
      rw [hDifference]
      exact rounded_normalize _ _ .positive

/-! ## Products and quotients -/

theorem withSign_mul_withSign (s s' : Sign) (a b : ℚ) :
    withSign s a * withSign s' b = withSign (s * s') (a * b) := by
  cases s <;> cases s'
  · exact neg_mul_neg a b
  · exact neg_mul a b
  · exact mul_neg a b
  · rfl

theorem withSign_div_withSign (s s' : Sign) (a b : ℚ) :
    withSign s a / withSign s' b = withSign (s / s') (a / b) := by
  cases s <;> cases s'
  · exact neg_div_neg_eq a b
  · exact neg_div b a
  · exact div_neg a
  · rfl

/-- Mantissas that have enough bits for their product to be rounded. -/
theorem rounded_mul_finite (s s' : Sign) {m m' : ℕ} {e e' : ℤ} (pos : 0 < m) (pos' : 0 < m')
    (he : e + e' ≤ Format.binary64.targetExponent (totalExponent (m * m') (e + e'))) :
    Rounded (withSign s (m * 2 ^ e) * withSign s' (m' * 2 ^ e'))
      ⟨Float.Model.pack (UnpackedFloat.mul Format.binary64 (.finite s m e pos)
        (.finite s' m' e' pos'))⟩ := by
  have hProduct : (m : ℚ) * 2 ^ e * (m' * 2 ^ e') = (m * m' : ℕ) * 2 ^ (e + e') := by
    rw [zpow_add₀ (by norm_num), Nat.cast_mul]
    ring
  rw [withSign_mul_withSign, hProduct]
  exact rounded_roundWithAccuracy (s * s') (represents_exact _) (by positivity) he

/-- A mantissa of 53 bits or more is long enough to be rounded. -/
theorem le_targetExponent {m : ℕ} (h : 2 ^ 52 ≤ m) (e : ℤ) :
    e ≤ Format.binary64.targetExponent (totalExponent m e) := by
  have hLog : 52 ≤ m.log2 := (Nat.le_log2 (by omega)).2 h
  rw [targetExponent_binary64, totalExponent]
  omega

/-- The product of two doubles has enough bits. -/
theorem Canonical.add_le_targetExponent {m m' : ℕ} {e e' : ℤ} (h : Canonical m e)
    (h' : Canonical m' e') (pos : 0 < m) (pos' : 0 < m') :
    e + e' ≤ Format.binary64.targetExponent (totalExponent (m * m') (e + e')) := by
  rcases h.leading with hLeast | hLeading
  · rcases h'.leading with hLeast' | hLeading'
    · rw [targetExponent_binary64]
      omega
    · exact le_targetExponent (hLeading'.trans (Nat.le_mul_of_pos_left m' pos)) _
  · exact le_targetExponent (hLeading.trans (Nat.le_mul_of_pos_right m pos')) _

theorem Numeric.rounded_mul (hu : Numeric u) (hv : Numeric v) :
    Rounded (rational u * rational v)
      ⟨Float.Model.pack (UnpackedFloat.mul Format.binary64 u v)⟩ := by
  cases hu with
  | zero s =>
    rw [show rational (.zero s) = 0 from rfl, zero_mul]
    cases hv <;> exact rounded_zero _
  | finite s m e pos canonical =>
    cases hv with
    | zero s' =>
      rw [show rational (.zero s') = 0 from rfl, mul_zero]
      exact rounded_zero _
    | finite s' m' e' pos' canonical' =>
      exact rounded_mul_finite s s' pos pos' (canonical.add_le_targetExponent canonical' pos pos')

/-- The dividend is lengthened until the quotient has enough bits. -/
theorem rounded_div_finite (s s' : Sign) {m m' : ℕ} (e e' : ℤ) (pos : 0 < m) (pos' : 0 < m') :
    Rounded (withSign s (m * 2 ^ e) / withSign s' (m' * 2 ^ e'))
      ⟨Float.Model.pack (UnpackedFloat.div Format.binary64 (.finite s m e pos)
        (.finite s' m' e' pos'))⟩ := by
  obtain ⟨t, ht⟩ : ∃ t, t = min (e - e') (Format.binary64.targetExponent
    (totalExponent m e - totalExponent m' e')) := ⟨_, rfl⟩
  obtain ⟨k, hk⟩ : ∃ k, k = (e - e' - t).toNat := ⟨_, rfl⟩
  have hQuotient : (m : ℚ) * 2 ^ e / (m' * 2 ^ e') = ((m * 2 ^ k : ℕ) / m' : ℚ) * 2 ^ t := by
    have hExponent : e = k + t + e' := by omega
    rw [hExponent, zpow_add₀ (by norm_num), two_pow_add]
    push_cast
    field_simp
  have hEnough : t ≤ Format.binary64.targetExponent (totalExponent (m * 2 ^ k / m') t) := by
    rcases le_or_gt t (-1074) with hLeast | hMore
    · rw [targetExponent_binary64]
      omega
    · -- the dividend is 52 bits longer than the divisor
      rw [targetExponent_binary64, totalExponent, totalExponent] at ht
      have hDividend : m'.log2 + 53 ≤ m.log2 + k := by omega
      refine le_targetExponent ?_ t
      rw [Nat.le_div_iff_mul_le pos']
      calc 2 ^ 52 * m' ≤ 2 ^ 52 * 2 ^ (m'.log2 + 1) := by
            gcongr
            exact Nat.lt_log2_self.le
        _ = 2 ^ (m'.log2 + 53) := by rw [← pow_add]; congr 1; omega
        _ ≤ 2 ^ (m.log2 + k) := Nat.pow_le_pow_right (by norm_num) hDividend
        _ = 2 ^ m.log2 * 2 ^ k := pow_add 2 _ _
        _ ≤ m * 2 ^ k := by gcongr; exact Nat.log2_self_le pos.ne'
  have hCore : divCore Format.binary64 m e m' e' =
      (m * 2 ^ k / m', t, accuracyOfFraction (m * 2 ^ k % m') m') := by
    rw [divCore, ← ht, ← hk, Nat.shiftLeft_eq]
  rw [withSign_div_withSign, hQuotient]
  simp only [UnpackedFloat.div, hCore]
  exact rounded_roundWithAccuracy (s / s') (represents_div _ pos') (by positivity) hEnough

theorem Numeric.rounded_div (hu : Numeric u) (hv : Numeric v) (hNonzero : rational v ≠ 0) :
    Rounded (rational u / rational v)
      ⟨Float.Model.pack (UnpackedFloat.div Format.binary64 u v)⟩ := by
  cases hv with
  | zero s' => exact absurd rfl hNonzero
  | finite s' m' e' pos' canonical' =>
    cases hu with
    | zero s =>
      rw [show rational (.zero s) = 0 from rfl, zero_div]
      exact rounded_zero _
    | finite s m e pos canonical => exact rounded_div_finite s s' e e' pos pos'

/-! ## Doubles -/

theorem rounded_add (hx : x.isFinite = true) (hy : y.isFinite = true) :
    Rounded (value x + value y) (x + y) := by
  rw [value_eq_rational, value_eq_rational]
  exact (numeric_unpack hx).rounded_add (numeric_unpack hy)

theorem rounded_sub (hx : x.isFinite = true) (hy : y.isFinite = true) :
    Rounded (value x - value y) (x - y) := by
  rw [value_eq_rational, value_eq_rational]
  exact (numeric_unpack hx).rounded_sub (numeric_unpack hy)

theorem rounded_mul (hx : x.isFinite = true) (hy : y.isFinite = true) :
    Rounded (value x * value y) (x * y) := by
  rw [value_eq_rational, value_eq_rational]
  exact (numeric_unpack hx).rounded_mul (numeric_unpack hy)

theorem rounded_div (hx : x.isFinite = true) (hy : y.isFinite = true) (hNonzero : value y ≠ 0) :
    Rounded (value x / value y) (x / y) := by
  rw [value_eq_rational] at hNonzero
  rw [value_eq_rational, value_eq_rational]
  exact (numeric_unpack hx).rounded_div (numeric_unpack hy) hNonzero

theorem rounded_neg (hx : x.isFinite = true) : Rounded (-value x) (-x) := by
  rw [value_eq_rational, ← rational_neg]
  exact (numeric_unpack hx).neg.rounded_pack

/-- What is in range for its exact result is a number. -/
theorem Rounded.isFinite_iff (h : Rounded r z) : z.isFinite = true ↔ |r| < limit := by
  cases h with
  | finite inRange isFinite => exact ⟨fun _ => inRange, fun _ => isFinite⟩
  | overflow beyond parts_eq =>
    refine ⟨fun hFinite => ?_, fun hLess => absurd hLess (not_lt.2 beyond)⟩
    obtain ⟨n, m, e, hParts⟩ := exists_parts_of_isFinite hFinite
    rw [parts_eq] at hParts
    cases hParts

theorem Rounded.value_eq (h : Rounded r z) (hr : |r| < limit) : value z = nearest r := by
  cases h with
  | finite inRange isFinite value_eq => exact value_eq
  | overflow beyond parts_eq => exact absurd hr (not_lt.2 beyond)

/-- A mantissa and an exponent that go into a double. -/
theorem mul_two_pow_lt_limit {m : ℕ} {e : ℤ} (hm : m < 2 ^ 53) (low : -1074 ≤ e) (high : e ≤ 971) :
    (m : ℚ) * 2 ^ e < limit := by
  have hAbs : |(m : ℚ) * 2 ^ e| = m * 2 ^ e := abs_of_nonneg (by positivity)
  rw [← hAbs, ← abs_nearest_lt_iff, nearest_eq_self ⟨m, e, hm, low, hAbs⟩, hAbs]
  exact mul_two_pow_lt hm high

/-- Every double that is a number is below the limit. -/
theorem abs_value_lt_limit (hx : x.isFinite = true) : |value x| < limit := by
  obtain ⟨n, m, e, hParts⟩ := exists_parts_of_isFinite hx
  have hCanonical := canonical_of_parts hParts
  rw [value, hParts]
  simp only
  rw [abs_signed_mul]
  exact mul_two_pow_lt_limit hCanonical.mantissa hCanonical.low hCanonical.high

/-- The opposite of a double is exact. -/
theorem isFinite_neg (hx : x.isFinite = true) : (-x).isFinite = true := by
  rw [(rounded_neg hx).isFinite_iff, abs_neg]
  exact abs_value_lt_limit hx

theorem value_neg (hx : x.isFinite = true) : value (-x) = -value x := by
  have hNear := (rounded_neg hx).value_eq (by rw [abs_neg]; exact abs_value_lt_limit hx)
  rw [hNear, nearest_eq_self (fewBits_value x).neg]

theorem limit_le_two_pow : limit ≤ 2 ^ 1024 := sub_le_self _ (by positivity)

theorem two_pow_lt_limit : (2 : ℚ) ^ 1023 < limit := by
  have hTop : (2 : ℚ) ^ 1024 = 2 ^ 970 * 2 ^ 54 := by rw [← pow_add]
  have hHalf : (2 : ℚ) ^ 1023 = 2 ^ 970 * 2 ^ 53 := by rw [← pow_add]
  have hPos : (0 : ℚ) < 2 ^ 970 := by positivity
  rw [limit, hTop, hHalf]
  generalize (2 : ℚ) ^ 970 = p at hPos
  linarith

/-- Numbers that are far from the greatest double. -/
theorem lt_limit_of_le (h : |r| ≤ 2 ^ 100) : |r| < limit :=
  (h.trans_lt (pow_lt_pow_right₀ (by norm_num) (by norm_num))).trans two_pow_lt_limit

/-- A number that some double stands for is the result itself. -/
theorem Rounded.exact (h : Rounded r z) (hFew : FewBits r) (hr : |r| < limit) :
    z.isFinite = true ∧ value z = r :=
  ⟨h.isFinite_iff.2 hr, by rw [h.value_eq hr, nearest_eq_self hFew]⟩

/-- A word of at most 53 bits is a double. -/
theorem value_toFloat_toUInt64 {n : ℕ} (h : n < 2 ^ 53) :
    n.toUInt64.toFloat.isFinite = true ∧ value n.toUInt64.toFloat = n := by
  have hWord : n.toUInt64.toNat = n := by
    rw [Nat.toUInt64_eq, UInt64.toNat_ofNat']
    omega
  have hRounded : Rounded n n.toUInt64.toFloat := by
    have hNormalized := rounded_normalize n 0 .positive
    rw [zpow_zero, mul_one, Int.cast_natCast] at hNormalized
    show Rounded n ⟨Float.Model.pack (UnpackedFloat.ofNat Format.binary64 n.toUInt64.toNat)⟩
    rw [hWord]
    exact hNormalized
  refine hRounded.exact (fewBits_natCast h.le) ?_
  have hLimit := mul_two_pow_lt_limit (e := 0) h (by norm_num) (by norm_num)
  rw [zpow_zero, mul_one] at hLimit
  rwa [abs_of_nonneg (by positivity)]

end ItemComposition.Binary64
