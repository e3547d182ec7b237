import ItemComposition.Proofs.Binary64.Operations

/-!
# Remainders

The remainder of a division of two doubles is computed on mantissas and needs no rounding: it is a
multiple of the smaller unit of the two, and less than the divisor, so 53 bits are enough for it.

## Key results

- `value_powerOfTwo`: the powers of two that are doubles
- `value_ofDyadic`: a mantissa and an exponent that some double has
- `exists_quotient_remainder`: the remainder is exact
-/

namespace ItemComposition.Binary64

open Float.Model Float.Model.UnpackedFloat

/-! ## Powers of two -/

theorem significant_two_pow {e : ℤ} (hLow : -1022 ≤ e) (hHigh : e ≤ 1023) :
    Significant (2 ^ 52) (e - 52) :=
  ⟨Nat.log2_two_pow, by omega, by omega⟩

/-- A power of two that has all 53 bits is its exponent alone. -/
theorem powerOfTwo_eq_pack {e : ℤ} (hLow : -1022 ≤ e) (hHigh : e ≤ 1023) :
    powerOfTwo e = ⟨Float.Model.pack (.finite .positive (2 ^ 52) (e - 52)
      (significant_two_pow hLow hHigh).pos)⟩ := by
  have hSignificant := significant_two_pow hLow hHigh
  -- as a word: the biased exponent stands above the 52 bits of the fraction, which are all zero
  have hBits : (e + 1023).toNat.toUInt64 <<< 52 = (Float.Model.pack (.finite .positive (2 ^ 52)
      (e - 52) hSignificant.pos)).toBits := by
    obtain ⟨k, hk⟩ : ∃ k, k = (e + 1023).toNat := ⟨_, rfl⟩
    have hBiased : (e - 52 + 1075).toNat = k := by omega
    have hExponent : (BitVec.ofNat 11 k).toNat = k := by
      rw [BitVec.toNat_ofNat]
      omega
    have hZero : (BitVec.ofNat 52 (2 ^ 52)).toNat = 0 := by rw [BitVec.toNat_ofNat, Nat.mod_self]
    apply UInt64.toNat_inj.1
    show _ = (UnpackedFloat.pack Format.binary64 _).toNat
    rw [hSignificant.pack_eq, hBiased, ← hk, packComponents, BitVec.toNat_append,
      BitVec.toNat_append, hZero, hExponent, Nat.or_zero, Sign.toBitVec, UInt64.toNat_shiftLeft,
      Nat.toUInt64_eq, UInt64.toNat_ofNat']
    have hShift : (52 : UInt64).toNat % 64 = 52 := rfl
    have hSign : (0#1).toNat <<< 11 ||| k = k := by simp
    rw [hShift, hSign, Nat.shiftLeft_eq, Nat.shiftLeft_eq]
    omega
  rw [powerOfTwo, if_pos hLow, hBits]
  show (⟨Float.Model.pack (Float.Model.pack _).unpack⟩ : Float) = _
  rw [hSignificant.unpack_pack]

/-- The smaller powers of two are single bits. -/
theorem parts_ofBits_shiftLeft (k : Fin 52) :
    parts (Float.ofBits (1 <<< k.val.toUInt64)) = .finite false (2 ^ k.val) (-1074) := by
  decide +revert +kernel

theorem value_powerOfTwo {e : ℤ} (hLow : -1074 ≤ e) (hHigh : e ≤ 1023) :
    (powerOfTwo e).isFinite = true ∧ value (powerOfTwo e) = 2 ^ e := by
  rcases le_or_gt (-1022) e with hLong | hShort
  · have hParts := (significant_two_pow hLong hHigh).parts_pack .positive
    rw [← powerOfTwo_eq_pack hLong hHigh] at hParts
    refine ⟨isFinite_of_parts hParts, ?_⟩
    rw [value_of_parts hParts, Nat.cast_pow, Nat.cast_ofNat, ← two_pow_add]
    show (2 : ℚ) ^ ((52 : ℕ) + (e - 52)) = 2 ^ e
    congr 1
    push_cast
    ring
  · -- below the least exponent of a significant number the word is a single bit of the fraction
    obtain ⟨k, rfl⟩ : ∃ k : ℕ, e = k + -1074 := ⟨(e + 1074).toNat, by omega⟩
    have hParts := parts_ofBits_shiftLeft ⟨k, by omega⟩
    have hIndex : ((k : ℤ) + -1074 + 1074).toNat = k := by omega
    have hEq : powerOfTwo (k + -1074) = Float.ofBits (1 <<< k.toUInt64) := by
      rw [powerOfTwo, if_neg (by omega), hIndex]
    rw [hEq]
    refine ⟨isFinite_of_parts hParts, ?_⟩
    rw [value, hParts, two_pow_add]
    simp [signed]

/-! ## Mantissas and exponents -/

theorem stripTwos_eq (limit m count : ℕ) :
    (stripTwos limit m count).1 * 2 ^ (stripTwos limit m count).2 = m * 2 ^ count ∧
      (stripTwos limit m count).1 ≤ m ∧ (stripTwos limit m count).2 ≤ count + limit := by
  -- each step halves the mantissa and counts one two; the limit only bounds the number of steps
  induction limit generalizing m count with
  | zero => exact ⟨rfl, le_refl m, le_refl _⟩
  | succ limit ih =>
    rw [stripTwos]
    split
    · next hEven =>
      obtain ⟨hMul, hLe, hCount⟩ := ih (m / 2) (count + 1)
      refine ⟨hMul.trans ?_, hLe.trans (Nat.div_le_self m 2), by omega⟩
      have hHalf : m / 2 * 2 = m := by omega
      rw [pow_succ', ← mul_assoc, hHalf]
    · exact ⟨rfl, le_refl m, by omega⟩

/-- A mantissa of few bits and an exponent are a double without rounding. -/
theorem value_ofDyadic {m : ℕ} {e : ℤ} (hm : m < 2 ^ 53) (low : -1074 ≤ e) (high : e ≤ 971) :
    (ofDyadic m e).isFinite = true ∧ value (ofDyadic m e) = m * 2 ^ e := by
  unfold ofDyadic
  split
  · next hZero =>
    rw [hZero, Nat.cast_zero, zero_mul]
    exact ⟨rfl, by decide +kernel⟩
  · next hNe =>
    have hLog : m.log2 < 53 := (Nat.log2_lt hNe).2 hm
    obtain ⟨hMul, hLe, hCount⟩ := stripTwos_eq m.log2 m 0
    simp only
    generalize (stripTwos m.log2 m 0).1 = odd at hMul hLe ⊢
    generalize (stripTwos m.log2 m 0).2 = twos at hMul hCount ⊢
    -- both factors are exact, so the product of the odd part and the power of two is rounded once,
    -- and it has few enough bits to need no rounding
    have hOdd : (ofSmallNat odd).isFinite = true ∧ value (ofSmallNat odd) = odd :=
      value_toFloat_toUInt64 (by omega)
    obtain ⟨hPower, hPowerValue⟩ := value_powerOfTwo (e := e + twos) (by omega) (by omega)
    have hProduct := rounded_mul hOdd.1 hPower
    have hValue : (odd : ℚ) * 2 ^ (e + twos) = m * 2 ^ e := by
      rw [add_comm, two_pow_add, ← mul_assoc]
      congr 1
      exact_mod_cast hMul.trans (Nat.mul_one m)
    rw [hOdd.2, hPowerValue, hValue] at hProduct
    refine hProduct.exact ⟨m, e, hm, low, abs_of_nonneg (by positivity)⟩ ?_
    rw [abs_of_nonneg (by positivity)]
    exact mul_two_pow_lt_limit hm low high

/-! ## Remainders -/

variable {x y : Float}

/-- The remainder is a number, and exact: it is what the dividend is more than a multiple of the
divisor, less than the divisor, and has the sign of the dividend. -/
theorem exists_quotient_remainder (hx : x.isFinite = true) (hy : y.isFinite = true)
    (hNonzero : value y ≠ 0) :
    (remainder x y).isFinite = true ∧ ∃ q : ℕ, |value x| = q * |value y| + |value (remainder x y)| ∧
      |value (remainder x y)| < |value y| ∧ 0 ≤ value x * value (remainder x y) := by
  obtain ⟨negative, m, e, hx⟩ := exists_parts_of_isFinite hx
  obtain ⟨negative', n, f, hy⟩ := exists_parts_of_isFinite hy
  have hc := canonical_of_parts hx
  have hc' := canonical_of_parts hy
  have hn : n ≠ 0 := by
    rintro rfl
    refine hNonzero ?_
    rw [value, hy]
    cases negative' <;> simp [signed]
  obtain ⟨low, hLow⟩ : ∃ low, low = min e f := ⟨_, rfl⟩
  have hDividend := shiftLeft_mul_two_pow m (e := e) (t := low) (by omega)
  have hDivisor := shiftLeft_mul_two_pow n (e := f) (t := low) (by omega)
  have hBits : (m <<< (e - low).toNat) % (n <<< (f - low).toNat) < 2 ^ 53 := by
    rcases le_total e f with hLe | hLe
    · -- the dividend is not lengthened
      have hShift : (e - low).toNat = 0 := by omega
      rw [hShift]
      exact (Nat.mod_le _ _).trans_lt hc.mantissa
    · have hShift : (f - low).toNat = 0 := by omega
      rw [hShift]
      exact (Nat.mod_lt _ (Nat.pos_of_ne_zero hn)).trans hc'.mantissa
  have hNonzero' : 0 < n <<< (f - low).toNat := by
    rw [Nat.shiftLeft_eq]
    positivity
  have hRemainder : remainder x y =
      let magnitude := ofDyadic ((m <<< (e - low).toNat) % (n <<< (f - low).toNat)) low
      if negative then -magnitude else magnitude := by
    simp only [remainder, hx, hy, if_neg hn, ← hLow]
  generalize m <<< (e - low).toNat = dividend at *
  generalize n <<< (f - low).toNat = divisor at *
  have hSplit : (dividend : ℚ) = (dividend / divisor : ℕ) * divisor + (dividend % divisor : ℕ) := by
    exact_mod_cast (Nat.div_add_mod' dividend divisor).symm
  have hLess : ((dividend % divisor : ℕ) : ℚ) < divisor := by
    exact_mod_cast Nat.mod_lt dividend hNonzero'
  have hLeast := hc.low
  have hLeast' := hc'.low
  have hGreatest := hc.high
  obtain ⟨hFinite, hValue⟩ := value_ofDyadic hBits (e := low) (by omega) (by omega)
  have hUnit : (0 : ℚ) < 2 ^ low := by positivity
  have hSum : (m : ℚ) * 2 ^ e =
      (dividend / divisor : ℕ) * (n * 2 ^ f) + (dividend % divisor : ℕ) * 2 ^ low := by
    rw [← hDividend, ← hDivisor, hSplit]
    ring
  have hBelow : ((dividend % divisor : ℕ) : ℚ) * 2 ^ low < n * 2 ^ f := by
    rw [← hDivisor]
    gcongr
  have hDividendValue : value x = signed negative m * 2 ^ e := by rw [value, hx]
  have hDivisorValue : |value y| = n * 2 ^ f := by rw [value, hy]; exact abs_signed_mul negative' n f
  have hAbs : |((dividend % divisor : ℕ) : ℚ) * 2 ^ low| = (dividend % divisor : ℕ) * 2 ^ low :=
    abs_of_nonneg (by positivity)
  rw [hDividendValue, abs_signed_mul, hDivisorValue, hRemainder, signed_mul]
  cases negative with
  | false =>
    simp only [Bool.false_eq_true, if_false, hValue, hAbs]
    exact ⟨hFinite, _, hSum, hBelow, by positivity⟩
  | true =>
    simp only [if_true, value_neg hFinite, hValue, abs_neg, hAbs, neg_mul_neg]
    exact ⟨isFinite_neg hFinite, _, hSum, hBelow, by positivity⟩

end ItemComposition.Binary64
