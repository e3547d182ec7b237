import ItemComposition.Proofs.Binary64.Operations

/-!
# Decimal numerals as doubles

A decimal numeral is read as the double nearest to it, or as infinite if that is greater than every
double. Few digits and a small power of ten are doubles themselves and take one operation. The others
are rounded from a mantissa that holds all digits, and a power of ten that no double can come near to
is not computed at all.

## Key results

- `rounded_unpackedOfScientific`: a whole number times a power of ten
- `rounded_ofScientific`: the double of a decimal numeral
-/

namespace ItemComposition.Binary64

open Float.Model Float.Model.UnpackedFloat

/-! ## Few digits and small powers -/

/-- The powers of ten that doubles stand for are in the table. -/
theorem toModel_powersOfTen (k : Fin 23) :
    (Float.exactlyRepresentablePowersOfTen[k]).toModel = Float.Model.ofNat (10 ^ k.val) := by
  decide +revert +kernel

theorem value_powersOfTen (k : Fin 23) :
    (Float.exactlyRepresentablePowersOfTen[k]).isFinite = true ∧
      value Float.exactlyRepresentablePowersOfTen[k] = 10 ^ k.val := by
  have hRounded := rounded_normalize (10 ^ k.val : ℕ) 0 .positive
  have hTable : Float.exactlyRepresentablePowersOfTen[k] = ⟨Float.Model.pack
      (UnpackedFloat.normalize Format.binary64 ((10 ^ k.val : ℕ) : ℤ) 0 .positive)⟩ :=
    congrArg Float.ofModel (toModel_powersOfTen k)
  rw [← hTable, zpow_zero, mul_one, Int.cast_natCast, Nat.cast_pow, Nat.cast_ofNat] at hRounded
  have hk : k.val ≤ 22 := by omega
  -- ten to the k is five to the k, shifted: few enough bits for every entry of the table
  refine hRounded.exact ⟨5 ^ k.val, k.val, ?_, by omega, ?_⟩ ?_
  · calc 5 ^ k.val ≤ 5 ^ 22 := Nat.pow_le_pow_right (by norm_num) hk
      _ < 2 ^ 53 := by norm_num
  · rw [abs_of_nonneg (by positivity), zpow_natCast, Nat.cast_pow, Nat.cast_ofNat, ← mul_pow]
    norm_num
  · rw [abs_of_nonneg (by positivity)]
    refine lt_trans ?_ two_pow_lt_limit
    calc (10 : ℚ) ^ k.val ≤ 16 ^ 22 := by
          refine (pow_le_pow_right₀ (by norm_num) hk).trans ?_
          exact pow_le_pow_left₀ (by norm_num) (by norm_num) 22
      _ = 2 ^ 88 := by norm_num
      _ < 2 ^ 1023 := pow_lt_pow_right₀ (by norm_num) (by norm_num)

/-! ## All numerals -/

/-- A positive number below half of the least positive double is rounded to zero. -/
theorem nearest_eq_zero {r : ℚ} (hr : 0 ≤ r) (hSmall : r < 2 ^ (-1075 : ℤ)) : nearest r = 0 := by
  -- the nearest double is at most twice the number, and the least unit is more than twice this one
  have hTwice : nearest r ≤ 2 * r := by
    have hAbs := (le_abs_self _).trans (abs_nearest_le r)
    rwa [abs_of_nonneg hr] at hAbs
  rw [nearest_of_nonneg hr] at hTwice ⊢
  have hLeast : (2 : ℚ) ^ (-1074 : ℤ) ≤ 2 ^ unit r :=
    zpow_le_zpow_right₀ (by norm_num) (le_max_right _ _)
  have hHalf : (2 : ℚ) ^ (-1074 : ℤ) = 2 * 2 ^ (-1075 : ℤ) := by
    rw [show (-1074 : ℤ) = -1075 + 1 by norm_num, zpow_add_one₀ (by norm_num), mul_comm]
  rcases Nat.eq_zero_or_pos (units r) with hZero | hPos
  · rw [hZero, Nat.cast_zero, zero_mul]
  · have hOne : (1 : ℚ) ≤ units r := by exact_mod_cast hPos
    have hPow : (0 : ℚ) < 2 ^ unit r := by positivity
    nlinarith

theorem rounded_mul_tenPow {n : ℕ} (pos : 0 < n) (k : ℕ) (h : 0 < n <<< 53) (h' : 0 < 10 ^ k) :
    Rounded (n * 10 ^ (k : ℤ)) ⟨Float.Model.pack (UnpackedFloat.mul Format.binary64
      (.finite .positive (n <<< 53) (-53) h) (.finite .positive (10 ^ k) 0 h'))⟩ := by
  have hLong : 2 ^ 52 ≤ n <<< 53 * 10 ^ k := by
    rw [Nat.shiftLeft_eq]
    calc 2 ^ 52 ≤ 2 ^ 53 := by norm_num
      _ ≤ n * 2 ^ 53 := Nat.le_mul_of_pos_left _ pos
      _ ≤ n * 2 ^ 53 * 10 ^ k := Nat.le_mul_of_pos_right _ h'
  -- the product of the two unpacked numbers has no rounding but the last one
  have hRounded := rounded_mul_finite .positive .positive h h' (le_targetExponent hLong (-53 + 0))
  have hValue : ((n <<< 53 : ℕ) * 2 ^ (-53 : ℤ) : ℚ) * ((10 ^ k : ℕ) * 2 ^ (0 : ℤ)) =
      n * 10 ^ (k : ℤ) := by
    rw [Nat.shiftLeft_eq, zpow_zero, zpow_natCast, zpow_neg]
    push_cast
    norm_num
    ring
  rw [← hValue]
  exact hRounded

theorem rounded_div_tenPow {n : ℕ} (pos : 0 < n) (k : ℕ) (h' : 0 < 10 ^ k) :
    Rounded (n * 10 ^ (-k : ℤ)) ⟨Float.Model.pack (UnpackedFloat.div Format.binary64
      (.finite .positive n 0 pos) (.finite .positive (10 ^ k) 0 h'))⟩ := by
  have hRounded := rounded_div_finite .positive .positive 0 0 pos h'
  have hValue : (n * 2 ^ (0 : ℤ) : ℚ) / ((10 ^ k : ℕ) * 2 ^ (0 : ℤ)) = n * 10 ^ (-k : ℤ) := by
    rw [zpow_zero, zpow_neg, zpow_natCast, div_eq_mul_inv]
    push_cast
    ring
  rw [← hValue]
  exact hRounded

/-- A whole number times a power of ten. -/
theorem rounded_unpackedOfScientific (n : ℕ) (e : ℤ) : Rounded (n * 10 ^ e)
    ⟨Float.Model.pack (UnpackedFloat.ofScientific Format.binary64 n e)⟩ := by
  have hRange : (2 : ℤ) ^ Format.binary64.exponentBits = 2048 := by norm_num
  unfold UnpackedFloat.ofScientific
  simp only [hRange]
  split
  · next hZero =>
    rw [hZero, Nat.cast_zero, zero_mul]
    exact rounded_zero .positive
  next hNe =>
  have hPos : 0 < n := Nat.pos_of_ne_zero hNe
  split
  · next hGreat =>
    -- such powers are not computed: they are beyond every double
    have hOne : (1 : ℚ) ≤ n := by exact_mod_cast hPos
    have hBeyond : (2 : ℚ) ^ 1024 ≤ n * 10 ^ e := by
      calc (2 : ℚ) ^ 1024 ≤ 10 ^ 1024 := pow_le_pow_left₀ (by norm_num) (by norm_num) _
        _ = 10 ^ (1024 : ℤ) := (zpow_natCast _ _).symm
        _ ≤ 10 ^ e := zpow_le_zpow_right₀ (by norm_num) (by omega)
        _ ≤ n * 10 ^ e := le_mul_of_one_le_left (by positivity) hOne
    have hAbs : |(n : ℚ) * 10 ^ e| = n * 10 ^ e := abs_of_nonneg (by positivity)
    refine .overflow ?_ ?_
    · rw [hAbs]
      exact limit_le_two_pow.trans hBeyond
    · have hSign : ¬(n : ℚ) * 10 ^ e < 0 := not_lt.2 (by positivity)
      rw [decide_eq_false hSign]
      exact parts_pack_infinity .positive
  next hFits =>
  split
  · next hSmall =>
    -- nor these: they are below half of the least positive double
    have hTiny : (n : ℚ) * 10 ^ e < 2 ^ (-1075 : ℤ) := by
      have hDigits : (n : ℚ) < 2 ^ (n.log2 + 1) := by exact_mod_cast Nat.lt_log2_self (n := n)
      calc (n : ℚ) * 10 ^ e < 2 ^ (n.log2 + 1) * 10 ^ e := by gcongr
        _ ≤ 2 ^ (n.log2 + 1) * 2 ^ e := by
            obtain ⟨k, rfl⟩ : ∃ k : ℕ, e = -k := ⟨(-e).toNat, by omega⟩
            rw [zpow_neg, zpow_neg, zpow_natCast, zpow_natCast]
            gcongr
            norm_num
        _ = 2 ^ ((n.log2 + 1 : ℕ) + e) := (two_pow_add _ _).symm
        _ ≤ 2 ^ (-1075 : ℤ) := zpow_le_zpow_right₀ (by norm_num) (by push_cast; omega)
    have hNonneg : (0 : ℚ) ≤ n * 10 ^ e := by positivity
    have hNearest := nearest_eq_zero hNonneg hTiny
    refine .finite ?_ rfl ?_
    · rw [← abs_nearest_lt_iff, hNearest, abs_zero]
      positivity
    · rw [hNearest, value_of_parts (parts_pack_zero .positive), Nat.cast_zero, zero_mul]
      rfl
  next hLarge =>
  split
  · next hWhole =>
    obtain ⟨k, rfl⟩ := Int.eq_ofNat_of_zero_le hWhole
    exact rounded_mul_tenPow hPos k _ _
  · next hFraction =>
    obtain ⟨k, rfl⟩ : ∃ k : ℕ, e = -k := ⟨(-e).toNat, by omega⟩
    have hExponent : (- -(k : ℤ)).toNat = k := by omega
    simp only [hExponent]
    exact rounded_div_tenPow hPos k _

/-- The double of a decimal numeral, whose digits are moved behind the point or given zeros. -/
theorem rounded_ofScientific (n k : ℕ) (behind : Bool) :
    Rounded (if behind then n / 10 ^ k else n * 10 ^ k) (Float.ofScientific n behind k) := by
  unfold Float.ofScientific
  by_cases hFast : n < 2 ^ 53 ∧ k ≤ 22
  · -- both the digits and the power of ten are doubles, so there is one rounding only
    rw [dif_pos hFast]
    obtain ⟨hSmall, hk⟩ := hFast
    obtain ⟨hDigits, hDigitsValue⟩ := value_toFloat_toUInt64 hSmall
    obtain ⟨hPower, hPowerValue⟩ := value_powersOfTen ⟨k, by omega⟩
    cases behind with
    | false =>
      have hRounded := rounded_mul hDigits hPower
      rw [hDigitsValue, hPowerValue] at hRounded
      exact hRounded
    | true =>
      have hRounded := rounded_div hDigits hPower (by rw [hPowerValue]; positivity)
      rw [hDigitsValue, hPowerValue] at hRounded
      exact hRounded
  · rw [dif_neg hFast]
    cases behind with
    | false =>
      have hRounded := rounded_unpackedOfScientific n k
      rw [zpow_natCast] at hRounded
      exact hRounded
    | true =>
      have hRounded := rounded_unpackedOfScientific n (-k)
      rw [zpow_neg, zpow_natCast, ← div_eq_mul_inv] at hRounded
      exact hRounded

end ItemComposition.Binary64
