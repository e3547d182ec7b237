import ItemComposition.Proofs.Binary64.Nearest
import ItemComposition.Proofs.Binary64.Order
import ItemComposition.Proofs.Binary64.WholeNumbers

/-!
# Rounded results

The exact result of an operation is a mantissa and an exponent, or a mantissa and what is known of
the bits after it. It is shifted to the right up to the unit of the doubles near it, and the two bits
that are kept of all that is shifted out are enough to find the nearest double. If that is greater
than every double, the result is infinite.

## Key results

- `Represents.shiftRight`: what the two bits say stays right
- `roundWithAccuracy_eq_nearest`: the result of rounding is the nearest double
- `rounded_roundWithAccuracy`, `rounded_normalize`: what becomes of it when it is packed
-/

namespace ItemComposition.Binary64

open Float.Model Float.Model.UnpackedFloat

variable {em : ExtendedMantissa} {x r : ℚ}

/-! ## Mantissas with two more bits -/

/-- The number that a mantissa and its two more bits are an account of: the first bit tells whether
the rest is a half or more, the other whether it is anything else than nothing or a half. -/
structure Represents (em : ExtendedMantissa) (x : ℚ) : Prop where
  low : (em.mantissa : ℚ) ≤ x
  high : x < em.mantissa + 1
  roundBit : em.roundBit = true ↔ (em.mantissa : ℚ) + 1 / 2 ≤ x
  stickyBit : em.stickyBit = true ↔ x ≠ em.mantissa ∧ x ≠ em.mantissa + 1 / 2

theorem represents_exact (m : ℕ) : Represents ⟨m, false, false⟩ m where
  low := le_refl _
  high := by simp
  roundBit := by simp
  stickyBit := by simp

/-- The account of a number that is not whole, from its mantissa and where the half is. -/
theorem represents_inexact (m : ℕ) {f : ℚ} (hPos : 0 < f) (hOne : f < 1) :
    Represents (.ofMantissaAndAccuracy m (.inexact (compare f (1 / 2)))) (m + f) := by
  -- the two bits behind the mantissa say on which side of one half the rest is
  rcases lt_trichotomy f (1 / 2) with hLess | hEq | hMore
  · rw [compare_lt_iff_lt.2 hLess]
    show Represents ⟨m, false, true⟩ _
    exact ⟨by simpa using hPos.le, by simpa using hOne, by simpa using hLess,
      by simpa using ⟨hPos.ne', by simpa using hLess.ne⟩⟩
  · rw [compare_eq_iff_eq.2 hEq, hEq]
    show Represents ⟨m, true, false⟩ _
    exact ⟨by simp, by norm_num, by simp, by simp⟩
  · rw [compare_gt_iff_gt.2 hMore]
    show Represents ⟨m, true, true⟩ _
    exact ⟨by simpa using hPos.le, by simpa using hOne, by simpa using hMore.le,
      by simpa using ⟨hPos.ne', by simpa using hMore.ne'⟩⟩

theorem compare_div_half (n : ℕ) {d : ℕ} (hd : 0 < d) :
    compare ((n : ℚ) / d) (1 / 2) = compare (2 * n) d := by
  have hPos : (0 : ℚ) < d := by exact_mod_cast hd
  rcases lt_trichotomy (2 * n) d with hLess | hEq | hMore
  · rw [compare_lt_iff_lt.2 hLess, compare_lt_iff_lt, div_lt_div_iff₀ hPos two_pos, one_mul,
      mul_comm]
    exact_mod_cast hLess
  · rw [compare_eq_iff_eq.2 hEq, compare_eq_iff_eq, div_eq_div_iff hPos.ne' two_ne_zero, one_mul,
      mul_comm]
    exact_mod_cast hEq
  · rw [compare_gt_iff_gt.2 hMore, compare_gt_iff_gt, div_lt_div_iff₀ two_pos hPos,
      one_mul, mul_comm (n : ℚ)]
    exact_mod_cast hMore

/-- The account of a quotient. -/
theorem represents_div (n : ℕ) {d : ℕ} (hd : 0 < d) :
    Represents (.ofMantissaAndAccuracy (n / d) (accuracyOfFraction (n % d) d)) (n / d : ℚ) := by
  have hPos : (0 : ℚ) < d := by exact_mod_cast hd
  -- whole part and rest of the division, both over the divisor
  have hQuotient : (n : ℚ) / d = (n / d : ℕ) + ((n % d : ℕ) : ℚ) / d := by
    have hWhole : (n : ℚ) = (n / d : ℕ) * d + (n % d : ℕ) := by
      exact_mod_cast (Nat.div_add_mod' n d).symm
    rw [div_eq_iff hPos.ne', add_mul, div_mul_cancel₀ _ hPos.ne']
    exact hWhole
  rw [hQuotient, accuracyOfFraction]
  split
  · next hZero =>
    rw [hZero, Nat.cast_zero, zero_div, add_zero]
    exact represents_exact _
  · next hNe =>
    have hRest : (0 : ℚ) < (n % d : ℕ) := by exact_mod_cast Nat.pos_of_ne_zero hNe
    have hOne : ((n % d : ℕ) : ℚ) / d < 1 := by
      rw [div_lt_one hPos]
      exact_mod_cast Nat.mod_lt n hd
    rw [← compare_div_half _ hd]
    exact represents_inexact _ (by positivity) hOne

/-- The bits are enough to round to the nearest whole number. -/
theorem Represents.roundedMantissa (h : Represents em x) : em.roundedMantissa = roundEven x := by
  have hFloor : ⌊x⌋₊ = em.mantissa := by
    rw [Nat.floor_eq_iff ((Nat.cast_nonneg _).trans h.low)]
    exact ⟨h.low, h.high⟩
  have hCases := roundEven_cases x
  rw [hFloor] at hCases
  obtain ⟨m, roundBit, stickyBit⟩ := em
  obtain ⟨-, -, hRound, hSticky⟩ := h
  simp only at hRound hSticky hCases
  cases roundBit with
  | false =>
    -- below the half, with or without a rest
    have hBelow : x < m + 1 / 2 := by simpa using hRound
    obtain ⟨-, hEq⟩ | ⟨hHalf, -⟩ | ⟨hMore, -⟩ := hCases
    · rw [hEq]
      cases stickyBit <;> rfl
    · linarith
    · linarith
  | true =>
    have hAbove : (m : ℚ) + 1 / 2 ≤ x := by simpa using hRound
    cases stickyBit with
    | false =>
      have hHalf : x = m + 1 / 2 := by
        by_contra hNe
        exact Bool.false_ne_true (hSticky.2 ⟨fun hEq => by linarith, hNe⟩)
      obtain ⟨hLess, -⟩ | ⟨-, hEq⟩ | ⟨hMore, -⟩ := hCases
      · linarith
      · rw [hEq]
        rfl
      · linarith
    | true =>
      have hMore : (m : ℚ) + 1 / 2 < x := lt_of_le_of_ne hAbove (hSticky.1 rfl).2.symm
      obtain ⟨hLess, -⟩ | ⟨hHalf, -⟩ | ⟨-, hEq⟩ := hCases
      · linarith
      · linarith
      · rw [hEq]
        rfl

/-- A mantissa that is shifted to the right gives its last bit and keeps what is left of the
rest. -/
theorem Represents.shiftRightOne (h : Represents em x) : Represents em.shiftRightOne (x / 2) := by
  obtain ⟨m, roundBit, stickyBit⟩ := em
  obtain ⟨hLow, hHigh, hRound, hSticky⟩ := h
  simp only at hLow hHigh hRound hSticky
  have hAny : (roundBit || stickyBit) = true ↔ x ≠ m := by
    rw [Bool.or_eq_true, hRound, hSticky]
    constructor
    · rintro (hAbove | hRest)
      · exact fun hEq => by linarith
      · exact hRest.1
    · intro hNe
      rcases eq_or_ne x (m + 1 / 2) with hHalf | hNot
      · exact .inl hHalf.ge
      · exact .inr ⟨hNe, hNot⟩
  rcases Nat.even_or_odd' m with ⟨q, rfl | rfl⟩
  · -- a zero is shifted out
    have hHalf : 2 * q / 2 = q := by omega
    push_cast at hLow hHigh hAny
    refine ⟨?_, ?_, ?_, ?_⟩ <;> simp only [ExtendedMantissa.shiftRightOne, hHalf]
    · linarith
    · linarith
    · rw [Nat.mul_mod_right]
      exact ⟨fun h => by simp at h, fun h => by linarith⟩
    · rw [hAny]
      exact ⟨fun h => ⟨fun hEq => h (by linarith), fun hEq => by linarith⟩,
        fun h hEq => h.1 (by linarith)⟩
  · -- a one is shifted out
    have hHalf : (2 * q + 1) / 2 = q := by omega
    have hOne : (2 * q + 1) % 2 = 1 := by omega
    push_cast at hLow hHigh hAny
    refine ⟨?_, ?_, ?_, ?_⟩ <;> simp only [ExtendedMantissa.shiftRightOne, hHalf]
    · linarith
    · linarith
    · rw [hOne]
      exact ⟨fun _ => by linarith, fun _ => rfl⟩
    · rw [hAny]
      exact ⟨fun h => ⟨fun hEq => by linarith, fun hEq => h (by linarith)⟩,
        fun h hEq => h.2 (by linarith)⟩

theorem Represents.shiftRight (h : Represents em x) (k : ℕ) : Represents (em >>> k) (x / 2 ^ k) := by
  induction k with
  | zero =>
    rw [pow_zero, div_one]
    exact h
  | succ k ih =>
    rw [pow_succ, ← div_div]
    exact ih.shiftRightOne

/-! ## The nearest double -/

/-- The unpacked form of a mantissa that may be zero. -/
def assembled (s : Sign) (n : ℕ) (t : ℤ) : UnpackedFloat :=
  if h : n = 0 then .zero s else .finite s n t (Nat.pos_of_ne_zero h)

/-- The exponent that a mantissa is shifted to is the unit of the number. -/
theorem targetExponent_eq_unit {m : ℕ} {e : ℤ} (hLow : (m : ℚ) ≤ x) (hHigh : x < m + 1)
    (hx : 0 < x) (he : e ≤ Format.binary64.targetExponent (totalExponent m e)) :
    Format.binary64.targetExponent (totalExponent m e) = unit (x * 2 ^ e) := by
  have hPos : 0 < x * 2 ^ e := by positivity
  rw [targetExponent_binary64, totalExponent] at he ⊢
  rcases Nat.eq_zero_or_pos m with rfl | hm
  · -- no bit before the point is left only below the least positive double
    have hLess : x * 2 ^ e < (2 : ℕ) ^ e := by
      rw [Nat.cast_ofNat]
      rw [Nat.cast_zero, zero_add] at hHigh
      exact mul_lt_of_lt_one_left (by positivity) hHigh
    have hLog := (Int.lt_zpow_iff_log_lt (by norm_num) hPos).1 hLess
    rw [Nat.log2_zero] at he ⊢
    unfold unit
    omega
  · have hBelow : ((2 : ℕ) : ℚ) ^ (m.log2 + e) ≤ x * 2 ^ e := by
      rw [Nat.cast_ofNat, two_pow_add]
      gcongr
      exact le_trans (by exact_mod_cast Nat.log2_self_le (Nat.ne_of_gt hm)) hLow
    have hAbove : x * 2 ^ e < ((2 : ℕ) : ℚ) ^ (m.log2 + 1 + e) := by
      have hNext : (m : ℚ) + 1 ≤ 2 ^ (m.log2 + 1) := by exact_mod_cast Nat.lt_log2_self (n := m)
      rw [Nat.cast_ofNat, ← Nat.cast_add_one, two_pow_add]
      gcongr
      exact hHigh.trans_le hNext
    have hLog : Int.log 2 (x * 2 ^ e) = m.log2 + e := by
      have hLe := (Int.zpow_le_iff_le_log (by norm_num) hPos).1 hBelow
      have hLt := (Int.lt_zpow_iff_log_lt (by norm_num) hPos).1 hAbove
      omega
    rw [unit, hLog]
    omega

/-- A mantissa of at most 53 bits, with the exponent that goes with it if there is no greatest
one. -/
structure Aligned (n : ℕ) (t : ℤ) : Prop where
  mantissa : n < 2 ^ 53
  low : -1074 ≤ t
  leading : t = -1074 ∨ 2 ^ 52 ≤ n

/-- A mantissa that has its place already is not shifted. -/
theorem Aligned.shiftToTargetExponent {n : ℕ} {t : ℤ} (h : Aligned n t) :
    shiftToTargetExponent Format.binary64 n t .exact = (⟨n, false, false⟩, t) := by
  have hLow := h.low
  have hTarget : Format.binary64.targetExponent (totalExponent n t) ≤ t := by
    have hLog : n.log2 < 53 := by
      rcases Nat.eq_zero_or_pos n with rfl | hPos
      · decide
      · exact (Nat.log2_lt (Nat.ne_of_gt hPos)).2 h.mantissa
    rw [targetExponent_binary64, totalExponent]
    omega
  have hShift : (Format.binary64.targetExponent (totalExponent n t) - t).toNat = 0 := by omega
  simp only [UnpackedFloat.shiftToTargetExponent, shiftToExponent, hShift]
  exact Prod.ext rfl (Int.add_zero t)

/-- The result of rounding is the nearest double, if there is no greatest one. -/
theorem roundWithAccuracy_eq_nearest (s : Sign) {m : ℕ} {e : ℤ} {a : Accuracy}
    (h : Represents (.ofMantissaAndAccuracy m a) x) (hx : 0 < x)
    (he : e ≤ Format.binary64.targetExponent (totalExponent m e)) :
    ∃ n t, Aligned n t ∧ (n : ℚ) * 2 ^ t = nearest (x * 2 ^ e) ∧
      roundWithAccuracy Format.binary64 s m e a = assembled s n t := by
  have hMantissa : (ExtendedMantissa.ofMantissaAndAccuracy m a).mantissa = m := by
    rcases a with _ | o
    · rfl
    · cases o <;> rfl
  have hLow := h.low
  have hHigh := h.high
  rw [hMantissa] at hLow hHigh
  obtain ⟨r, hr⟩ : ∃ r, r = x * 2 ^ e := ⟨_, rfl⟩
  have hPos : 0 < r := by rw [hr]; positivity
  have hUnit := targetExponent_eq_unit hLow hHigh hx he
  rw [← hr] at hUnit ⊢
  rw [hUnit] at he
  have hLeast : -1074 ≤ unit r := le_max_right _ _
  -- the first shift moves the point to the unit
  obtain ⟨k, hk⟩ := Int.le.dest he
  have hRounded : (ExtendedMantissa.ofMantissaAndAccuracy m a >>> k).roundedMantissa = units r := by
    have hScale : x / 2 ^ k = r / 2 ^ unit r := by
      rw [← hk, add_comm e, two_pow_add, hr]
      field_simp
    rw [(h.shiftRight k).roundedMantissa, units, hScale]
  have hFirst : shiftToTargetExponent Format.binary64 m e a =
      (ExtendedMantissa.ofMantissaAndAccuracy m a >>> k, unit r) := by
    have hShift : (unit r - e).toNat = k := by omega
    simp only [UnpackedFloat.shiftToTargetExponent, shiftToExponent, hUnit, hShift, hk]
  unfold roundWithAccuracy
  simp only [hFirst, hRounded]
  rcases Nat.lt_or_eq_of_le (units_le r) with hFew | hFull
  · have hAligned : Aligned (units r) (unit r) := by
      refine ⟨hFew, hLeast, ?_⟩
      rcases hLeast.eq_or_lt with hEq | hMore
      · exact .inl hEq.symm
      · exact .inr (le_units hPos hMore)
    refine ⟨units r, unit r, hAligned, (nearest_of_nonneg hPos.le).symm, ?_⟩
    simp only [hAligned.shiftToTargetExponent]
    rfl
  · -- the carry makes the mantissa one bit longer
    have hSecond := shiftToTargetExponent_eq (m := 2 ^ 53) (k := 1) (e := unit r) Nat.log2_two_pow
      (by push_cast; omega)
    refine ⟨2 ^ 52, unit r + 1, ⟨by norm_num, by omega, .inr (le_refl _)⟩, ?_, ?_⟩
    · rw [nearest_of_nonneg hPos.le, hFull, zpow_add_one₀ (by norm_num)]
      push_cast
      ring
    · simp only [hFull, hSecond, mantissa_shiftRight]
      rfl

/-! ## Packing -/

theorem parts_pack_infinity (s : Sign) :
    parts ⟨Float.Model.pack (.infinity s)⟩ = .infinite (s == .negative) := by
  cases s <;> rfl

theorem parts_pack_zero (s : Sign) :
    parts ⟨Float.Model.pack (.zero s)⟩ = .finite (s == .negative) 0 (-1074) := by
  cases s <;> rfl

/-- A mantissa without the leading bit is packed with the least exponent. -/
theorem parts_pack_of_lt {n : ℕ} (hPos : 0 < n) (hSmall : n < 2 ^ 52) (s : Sign) :
    parts ⟨Float.Model.pack (.finite s n (-1074) hPos)⟩ = .finite (s == .negative) n (-1074) := by
  have hLog : n.log2 < 52 := (Nat.log2_lt (Nat.ne_of_gt hPos)).2 hSmall
  have hPack : UnpackedFloat.pack Format.binary64 (.finite s n (-1074) hPos) =
      packComponents Format.binary64 s 0#11 (BitVec.ofNat 52 n) := by
    -- a number below 2 ^ 52 lacks the leading bit, so the exponent field of its word is zero
    have hShort : ¬n.log2 + 1 = Format.binary64.mantissaBits := by
      show ¬n.log2 + 1 = 53
      omega
    unfold UnpackedFloat.pack
    rw [if_neg (by decide), if_neg hShort]
  have hFraction : (BitVec.ofNat 52 n).toNat = n := by
    rw [BitVec.toNat_ofNat, Nat.mod_eq_of_lt hSmall]
  have hNonzero : BitVec.ofNat 52 n ≠ 0#52 := by
    intro hEq
    rw [hEq] at hFraction
    exact absurd hFraction (Nat.ne_of_lt hPos)
  have hSign : Sign.ofBitVec s.toBitVec = s := by cases s <;> rfl
  rw [parts_eq]
  unfold Float.Model.unpack Float.Model.pack
  simp only [UnpackedFloat.unpack, hPack, unpackSign_packComponents, unpackExponent_packComponents,
    unpackMantissa_packComponents]
  rw [if_neg (by decide), if_pos trivial, dif_neg hNonzero, partsOf, hSign, hFraction]
  rfl

/-- A packed number is what it was made of, or infinite if its exponent is too great. -/
theorem Aligned.parts_pack {n : ℕ} {t : ℤ} (h : Aligned n t) (hPos : 0 < n) (s : Sign) :
    parts ⟨Float.Model.pack (.finite s n t hPos)⟩ =
      if t ≤ 971 then .finite (s == .negative) n t else .infinite (s == .negative) := by
  by_cases hFits : t ≤ 971
  · rw [if_pos hFits]
    -- with the leading bit the number is a significant one, without it it is at the least exponent
    rcases Nat.lt_or_ge n (2 ^ 52) with hSmall | hLeading
    · obtain rfl : t = -1074 := h.leading.resolve_right (by omega)
      exact parts_pack_of_lt hPos hSmall s
    · have hBits : n.log2 = 52 := (Nat.log2_eq_iff (by omega)).2 ⟨hLeading, h.mantissa⟩
      exact Significant.parts_pack ⟨hBits, h.low, hFits⟩ s
  · have hPack : UnpackedFloat.pack Format.binary64 (.finite s n t hPos) =
        packedInfinity Format.binary64 s := by
      simp only [UnpackedFloat.pack, Format.exponentBias]
      norm_num
      omega
    rw [if_neg hFits, ← parts_pack_infinity]
    unfold Float.Model.pack
    simp only [hPack]
    rfl

/-! ## Rounded results -/

/-- What an operation gives for its exact result: the nearest double, or an infinity if that is
greater than every double. -/
inductive Rounded (r : ℚ) (z : Float) : Prop
  | finite (inRange : |r| < limit) (isFinite : z.isFinite = true) (value_eq : value z = nearest r)
  | overflow (beyond : limit ≤ |r|) (parts_eq : parts z = .infinite (r < 0))

/-- A sign and a magnitude. -/
def withSign (s : Sign) (r : ℚ) : ℚ := if s == .negative then -r else r

theorem withSign_mul (s : Sign) (n : ℕ) (e : ℤ) :
    withSign s (n * 2 ^ e) = signed (s == .negative) n * 2 ^ e := by
  rw [signed_mul, withSign]

/-- A finite double is told by its parts. -/
theorem value_of_parts {z : Float} {s : Sign} {m : ℕ} {e : ℤ}
    (h : parts z = .finite (s == .negative) m e) : value z = withSign s (m * 2 ^ e) := by
  rw [value, h, withSign_mul]

theorem nearest_withSign (s : Sign) (r : ℚ) : nearest (withSign s r) = withSign s (nearest r) := by
  cases s with
  | negative => exact nearest_neg r
  | positive => rfl

theorem abs_withSign (s : Sign) (r : ℚ) : |withSign s r| = |r| := by
  cases s with
  | negative => exact abs_neg r
  | positive => rfl

theorem mul_two_pow_lt {n : ℕ} {t : ℤ} (hn : n < 2 ^ 53) (ht : t ≤ 971) :
    (n : ℚ) * 2 ^ t < 2 ^ 1024 := by
  have hMantissa : (n : ℚ) < 2 ^ 53 := by exact_mod_cast hn
  have hMono : (2 : ℚ) ^ t ≤ 2 ^ (971 : ℤ) := zpow_le_zpow_right₀ (by norm_num) ht
  calc (n : ℚ) * 2 ^ t < 2 ^ 53 * 2 ^ t := by gcongr
    _ ≤ 2 ^ 53 * 2 ^ (971 : ℤ) := by gcongr
    _ = 2 ^ 1024 := two_pow_eq.symm

/-- The exponent tells whether a number is below the power of two after the greatest double. -/
theorem Aligned.lt_iff {n : ℕ} {t : ℤ} (h : Aligned n t) : (n : ℚ) * 2 ^ t < 2 ^ 1024 ↔ t ≤ 971 := by
  refine ⟨fun hLess => ?_, mul_two_pow_lt h.mantissa⟩
  by_contra hMore
  have hLow := h.low
  have hLeading : (2 : ℚ) ^ 52 ≤ n := by exact_mod_cast h.leading.resolve_left (by omega)
  refine absurd hLess (not_lt.2 ?_)
  calc (2 : ℚ) ^ 1024 = 2 ^ 52 * (2 * 2 ^ (971 : ℤ)) := by rw [two_pow_eq]; ring
    _ ≤ 2 ^ 52 * 2 ^ t := by gcongr; exact two_mul_two_pow_le (lt_of_not_ge hMore)
    _ ≤ n * 2 ^ t := by gcongr

theorem Aligned.rounded_pack {n : ℕ} {t : ℤ} (h : Aligned n t) (s : Sign) {r : ℚ} (hr : 0 < r)
    (hNearest : (n : ℚ) * 2 ^ t = nearest r) :
    Rounded (withSign s r) ⟨Float.Model.pack (assembled s n t)⟩ := by
  -- the result is finite exactly if the number is below the limit, which is said here by the
  -- exponent
  have hRange : |withSign s r| < limit ↔ t ≤ 971 := by
    rw [abs_withSign, ← abs_nearest_lt_iff, abs_nearest, abs_of_pos hr, ← hNearest, h.lt_iff]
  unfold assembled
  split
  · next hZero =>
    have hParts := parts_pack_zero s
    refine .finite (hRange.2 ?_) (isFinite_of_parts hParts) ?_
    · exact (h.leading.resolve_right (by omega)).trans_le (by norm_num)
    · rw [value_of_parts hParts, nearest_withSign, ← hNearest, hZero, Nat.cast_zero, zero_mul, zero_mul]
  · next hNe =>
    have hParts := h.parts_pack (Nat.pos_of_ne_zero hNe) s
    by_cases hFits : t ≤ 971
    · rw [if_pos hFits] at hParts
      refine .finite (hRange.2 hFits) (isFinite_of_parts hParts) ?_
      rw [value_of_parts hParts, nearest_withSign, hNearest]
    · rw [if_neg hFits] at hParts
      refine .overflow (le_of_not_gt fun hLess => hFits (hRange.1 hLess)) (hParts.trans ?_)
      cases s with
      | negative =>
        have hBelow : withSign .negative r < 0 := neg_neg_of_pos hr
        rw [decide_eq_true hBelow]
        rfl
      | positive =>
        have hAbove : ¬withSign .positive r < 0 := not_lt.2 hr.le
        rw [decide_eq_false hAbove]
        rfl

/-- The result of rounding, packed. -/
theorem rounded_roundWithAccuracy (s : Sign) {m : ℕ} {e : ℤ} {a : Accuracy}
    (h : Represents (.ofMantissaAndAccuracy m a) x) (hx : 0 < x)
    (he : e ≤ Format.binary64.targetExponent (totalExponent m e)) :
    Rounded (withSign s (x * 2 ^ e))
      ⟨Float.Model.pack (roundWithAccuracy Format.binary64 s m e a)⟩ := by
  obtain ⟨n, t, hAligned, hNearest, hEq⟩ := roundWithAccuracy_eq_nearest s h hx he
  rw [hEq]
  exact hAligned.rounded_pack s (by positivity) hNearest

/-- A mantissa that may be too short is lengthened before it is rounded. -/
theorem rounded_round (s : Sign) {m : ℕ} (hm : 0 < m) (e : ℤ) :
    Rounded (withSign s (m * 2 ^ e))
      ⟨Float.Model.pack (UnpackedFloat.round Format.binary64 s m e)⟩ := by
  -- the mantissa is first shifted to the exponent at which it is cut, which loses nothing
  obtain ⟨target, hTarget⟩ : ∃ t, t = Format.binary64.targetExponent (totalExponent m e) := ⟨_, rfl⟩
  obtain ⟨k, hk⟩ : ∃ k, k = (e - target).toNat := ⟨_, rfl⟩
  have hTotal : totalExponent (m * 2 ^ k) (e - k) = totalExponent m e := by
    rw [totalExponent, totalExponent, log2_mul_two_pow hm]
    push_cast
    ring
  have hRound : UnpackedFloat.round Format.binary64 s m e =
      roundWithAccuracy Format.binary64 s (m * 2 ^ k) (e - k) .exact := by
    rw [UnpackedFloat.round, ← hTarget, decreaseExponent, ← hk, Nat.shiftLeft_eq]
  have hValue : (m : ℚ) * 2 ^ e = (m * 2 ^ k : ℕ) * 2 ^ (e - k) := by
    rw [Nat.cast_mul, Nat.cast_pow, Nat.cast_ofNat, mul_assoc, ← two_pow_add]
    ring_nf
  rw [hRound, hValue]
  refine rounded_roundWithAccuracy s (represents_exact _) (by positivity) ?_
  rw [hTotal]
  omega

theorem rounded_zero (s : Sign) : Rounded 0 ⟨Float.Model.pack (.zero s)⟩ := by
  have hParts := parts_pack_zero s
  refine .finite ?_ (isFinite_of_parts hParts) ?_
  · rw [← abs_nearest_lt_iff, nearest_zero, abs_zero]
    positivity
  · rw [value_of_parts hParts, nearest_zero, Nat.cast_zero, zero_mul]
    cases s <;> rfl

/-- A signed mantissa. -/
theorem rounded_normalize (n : ℤ) (e : ℤ) (zeroSign : Sign) :
    Rounded (n * 2 ^ e) ⟨Float.Model.pack (UnpackedFloat.normalize Format.binary64 n e zeroSign)⟩ := by
  unfold UnpackedFloat.normalize
  rcases lt_trichotomy n 0 with hNeg | rfl | hPos
  · obtain ⟨m, rfl⟩ : ∃ m : ℕ, n = -m := ⟨(-n).toNat, by omega⟩
    have hRounded := rounded_round .negative (m := m) (by omega) e
    rw [compare_lt_iff_lt.2 hNeg, neg_neg, Int.toNat_natCast, Int.cast_neg, neg_mul]
    exact hRounded
  · rw [compare_eq_iff_eq.2 rfl, Int.cast_zero, zero_mul]
    exact rounded_zero zeroSign
  · obtain ⟨m, rfl⟩ : ∃ m : ℕ, n = m := ⟨n.toNat, by omega⟩
    rw [compare_gt_iff_gt.2 hPos, Int.toNat_natCast]
    exact rounded_round .positive (by omega) e

end ItemComposition.Binary64
