import ItemComposition.Proofs.Expr.Numerals

/-!
# Whole numbers as doubles

A whole number becomes the double nearest to it. That is a finite one for every number of 64 bits,
and it stands for the number itself if any double does: if the number is at most `2 ^ 53`, or ends
with so many zeros in binary that 53 bits are enough for the rest.

## Key results

- `ofNat_eq_pack`, `parts_ofInt`: the double of a whole number
- `value_ofInt_of_value`: a number that some double stands for
- `value_ofInt_of_le`: a number of at most 53 bits
-/

namespace ItemComposition.Binary64

open Float.Model Float.Model.UnpackedFloat

variable {n : Nat}

/-! ## Rounding a whole number -/

/-- A number of at most 53 bits is multiplied by one, a longer one is shifted to the left: either
way it is rounded from a mantissa that has bits to spare. -/
theorem ofNat_eq_round (pos : 0 < n) :
    ∃ j : Nat, 52 ≤ n.log2 + j ∧ Float.ofNat n =
      ⟨Float.Model.pack (UnpackedFloat.roundWithAccuracy Format.binary64 .positive (n * 2 ^ j)
        (-(j : Int)) .exact)⟩ := by
  -- the bound is that of the two ways in which the literal is read
  by_cases small : n < 2 ^ 53
  · have hProduct : Float.ofNat n =
        ⟨Float.Model.ofUInt64 n.toUInt64 * Float.Model.ofBits 4607182418800017408⟩ := by
      show Float.ofScientific n false 0 = _
      rw [Float.ofScientific, dif_pos ⟨small, by decide⟩]
      rfl
    refine ⟨room n + 52, by omega, ?_⟩
    rw [hProduct]
    change (⟨Float.Model.mul _ _⟩ : Float) = _
    rw [Float.Model.mul, unpack_ofUInt64 pos small, unpack_one, UnpackedFloat.mul]
    have hMantissa : (n <<< room n) * 2 ^ 52 = n * 2 ^ (room n + 52) := by
      rw [Nat.shiftLeft_eq, pow_add, Nat.mul_assoc]
    -- one is held with its 52 bits of fraction, and the product has those of both factors
    have hExponent : -(room n : Int) + -52 = -((room n + 52 : Nat) : Int) := by
      push_cast
      ring
    rw [hMantissa, hExponent]
    rfl
  · refine ⟨53, by omega, ?_⟩
    show Float.ofScientific n false 0 = _
    rw [Float.ofScientific, dif_neg (fun h => small h.1)]
    simp only [Bool.false_eq_true, if_false]
    change (⟨Float.Model.pack (UnpackedFloat.ofScientific Format.binary64 n 0)⟩ : Float) = _
    have hRange : (2 : Int) ^ Format.binary64.exponentBits = 2048 := by norm_num
    rw [UnpackedFloat.ofScientific, dif_neg (by omega), if_neg (by omega), if_neg (by omega),
      if_pos (Int.le_refl 0)]
    change (⟨Float.Model.pack (UnpackedFloat.roundWithAccuracy Format.binary64 .positive
      (n <<< 53 * 1) (-53 + 0) .exact)⟩ : Float) = _
    rw [Nat.mul_one, Nat.shiftLeft_eq]
    rfl

theorem log2_mul_two_pow (pos : 0 < n) (j : Nat) : (n * 2 ^ j).log2 = n.log2 + j := by
  have hLow := Nat.log2_self_le (Nat.ne_of_gt pos)
  have hHigh := Nat.lt_log2_self (n := n)
  have hPow : 0 < 2 ^ j := by positivity
  refine (Nat.log2_eq_iff (Nat.ne_of_gt (Nat.mul_pos pos hPow))).2 ⟨?_, ?_⟩
  · rw [pow_add]
    exact Nat.mul_le_mul_right _ hLow
  · rw [show n.log2 + j + 1 = n.log2 + 1 + j by omega, pow_add]
    exact Nat.mul_lt_mul_of_pos_right hHigh hPow

/-- The double of a whole number has all 53 bits, and stands for the number if these are enough. -/
theorem ofNat_eq_pack (pos : 0 < n) (fits : n < 2 ^ 64) :
    ∃ q e, ∃ h : Significant q e,
      Float.ofNat n = ⟨Float.Model.pack (.finite .positive q e h.pos)⟩ ∧
        ∀ p i, p < 2 ^ 53 → n = p * 2 ^ i → (q : ℚ) * 2 ^ e = n := by
  obtain ⟨j, hLong, hRound⟩ := ofNat_eq_round pos
  have hLog : (n * 2 ^ j).log2 = 52 + (n.log2 + j - 52) := by
    rw [log2_mul_two_pow pos]
    omega
  have hSmall : n.log2 < 64 := (Nat.log2_lt (Nat.ne_of_gt pos)).2 fits
  obtain ⟨q, e, h, hResult, hExact⟩ := roundWithAccuracy_eq (e := -(j : Int)) .positive hLog
    (by omega) (by omega)
  refine ⟨q, e, h, by rw [hRound, hResult], fun p i hp hn => ?_⟩
  -- the zeros at the end are as many as the bits that are shifted out
  have hZeros : n.log2 < 53 + i := by
    refine (Nat.log2_lt (Nat.ne_of_gt pos)).2 ?_
    rw [hn, pow_add]
    exact Nat.mul_lt_mul_of_pos_right hp (by positivity)
  have hSplit : n * 2 ^ j = p * 2 ^ (52 + i - n.log2) * 2 ^ (n.log2 + j - 52) := by
    rw [Nat.mul_assoc, ← pow_add, show 52 + i - n.log2 + (n.log2 + j - 52) = i + j by omega,
      pow_add, ← Nat.mul_assoc, ← hn]
  obtain ⟨rfl, rfl⟩ := hExact _ hSplit
  have hCast := congrArg (Nat.cast : Nat → ℚ) hSplit
  rw [Nat.cast_mul n, Nat.cast_mul (p * _), Nat.cast_pow, Nat.cast_pow, Nat.cast_ofNat] at hCast
  rw [zpow_add₀ (by norm_num), zpow_natCast, zpow_neg, zpow_natCast]
  have hPow : (2 : ℚ) ^ j ≠ 0 := by positivity
  field_simp
  linarith

/-! ## Negative numbers -/

theorem neg_pack {q : Nat} {e : Int} (h : Significant q e) :
    Float.neg ⟨Float.Model.pack (.finite .positive q e h.pos)⟩ =
      ⟨Float.Model.pack (.finite .negative q e h.pos)⟩ := by
  change (⟨Float.Model.neg _⟩ : Float) = _
  rw [Float.Model.neg, h.unpack_pack]
  rfl

/-- The parts of the double of a whole number, and their value if 53 bits are enough for it. -/
theorem parts_ofInt {n : Int} (fits : n.natAbs < 2 ^ 64) :
    ∃ m e, parts (ofInt n) = .finite (n < 0) m e ∧
      ∀ p i, p < 2 ^ 53 → n.natAbs = p * 2 ^ i → (m : ℚ) * 2 ^ e = n.natAbs := by
  -- the sign is taken off and put back, so a whole number is read as its magnitude with a sign
  cases n with
  | ofNat n =>
    have hSign : decide ((Int.ofNat n) < 0) = false := by simp
    rw [hSign]
    rcases Nat.eq_zero_or_pos n with rfl | pos
    · exact ⟨0, -1074, by decide +kernel, by simp⟩
    · obtain ⟨q, e, h, hEq, hExact⟩ := ofNat_eq_pack pos fits
      refine ⟨q, e, ?_, hExact⟩
      show parts (Float.ofNat n) = _
      rw [hEq]
      exact h.parts_pack .positive
  | negSucc n =>
    have hSign : decide (Int.negSucc n < 0) = true := decide_eq_true (Int.negSucc_lt_zero n)
    rw [hSign]
    obtain ⟨q, e, h, hEq, hExact⟩ := ofNat_eq_pack (Nat.succ_pos n) fits
    refine ⟨q, e, ?_, hExact⟩
    show parts (Float.neg (Float.ofNat (n + 1))) = _
    rw [hEq, neg_pack h, h.parts_pack .negative]
    rfl

theorem isFinite_of_parts {x : Float} {s : Bool} {m : Nat} {e : Int}
    (h : parts x = .finite s m e) : x.isFinite = true := by
  show x.toModel.unpack.isFinite = true
  rw [parts_eq] at h
  cases hu : x.toModel.unpack with
  | notANumber | infinity => rw [hu] at h; cases h
  | zero | finite => rfl

/-- Every whole number of 64 bits becomes a finite double. -/
theorem isFinite_ofInt {n : Int} (fits : n.natAbs < 2 ^ 64) : (ofInt n).isFinite = true := by
  obtain ⟨m, e, hParts, -⟩ := parts_ofInt fits
  exact isFinite_of_parts hParts

/-! ## Exact doubles -/

/-- The double of a number that 53 bits are enough for stands for that number. -/
theorem value_ofInt {n : Int} (fits : n.natAbs < 2 ^ 64) {p i : Nat} (hp : p < 2 ^ 53)
    (hn : n.natAbs = p * 2 ^ i) : value (ofInt n) = n := by
  obtain ⟨m, e, hParts, hExact⟩ := parts_ofInt fits
  -- the magnitude is exact for it has at most 53 bits before its zeros
  have hMagnitude := hExact p i hp hn
  rw [value, hParts]
  by_cases hNeg : n < 0
  · have hAbs : (n.natAbs : ℚ) = -n := by
      rw [Nat.cast_natAbs, abs_of_neg hNeg, Int.cast_neg]
    rw [hAbs] at hMagnitude
    simp only [signed, hNeg, decide_true, if_true, Int.cast_neg, Int.cast_natCast, neg_mul,
      hMagnitude, neg_neg]
  · have hAbs : (n.natAbs : ℚ) = n := by
      rw [Nat.cast_natAbs, abs_of_nonneg (Int.not_lt.1 hNeg)]
    rw [hAbs] at hMagnitude
    simp only [signed, hNeg, decide_false, Bool.false_eq_true, if_false, Int.cast_natCast,
      hMagnitude]

/-- A number of at most 53 bits. -/
theorem value_ofInt_of_le {n : Int} (h : n.natAbs ≤ 2 ^ 53) : value (ofInt n) = n := by
  rcases Nat.lt_or_eq_of_le h with hLess | hEq
  · exact value_ofInt (by omega) hLess (by rw [pow_zero, Nat.mul_one])
  · exact value_ofInt (p := 1) (i := 53) (by omega) (by norm_num) (by rw [hEq, Nat.one_mul])

/-- A number that some double stands for. -/
theorem value_ofInt_of_value {n : Int} (fits : n.natAbs < 2 ^ 64) {x : Float}
    (hx : x.isFinite = true) (h : (n : ℚ) = value x) : value (ofInt n) = n := by
  obtain ⟨s, m, e, hParts⟩ := exists_parts_of_isFinite hx
  have hSmall := (canonical_of_parts hParts).mantissa
  rw [value, hParts] at h
  simp only at h
  have hAbs : (n.natAbs : ℚ) = m * 2 ^ e := by
    rw [Nat.cast_natAbs, Int.cast_abs, h]
    exact abs_signed_mul s m e
  cases e with
  | ofNat k =>
    -- the double ends with as many zeros as its exponent says
    refine value_ofInt fits hSmall (i := k) ?_
    rw [Int.ofNat_eq_natCast, zpow_natCast] at hAbs
    exact_mod_cast hAbs
  | negSucc k =>
    -- the number is less than the mantissa
    refine value_ofInt_of_le ?_
    rw [zpow_negSucc] at hAbs
    have hLess : n.natAbs ≤ m := by
      have hPow : (1 : ℚ) ≤ 2 ^ (k + 1) := one_le_pow₀ (by norm_num)
      have hLe : (n.natAbs : ℚ) ≤ m := by
        rw [hAbs]
        exact mul_le_of_le_one_right (by positivity) (inv_le_one_of_one_le₀ hPow)
      exact_mod_cast hLe
    omega

end ItemComposition.Binary64
