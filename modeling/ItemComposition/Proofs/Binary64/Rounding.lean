import ItemComposition.Proofs.Binary64.Values

/-!
# Rounding to doubles

A mantissa with too many bits is shifted to the right until 53 of them are left, and rounded. If the
bits that are shifted out are zeros, nothing is lost. The result is packed into the bits of a double
and unpacked from there unchanged.

## Key results

- `Significant.unpack_pack`, `Significant.parts_pack`: a packed number is taken apart into what it
  was made of
- `roundWithAccuracy_eq`: the result of rounding
-/

namespace ItemComposition.Binary64

open Float.Model Float.Model.UnpackedFloat

/-! ## Packing -/

/-- The mantissa and the exponent of a double that is not too small to have all 53 bits. -/
structure Significant (m : Nat) (e : Int) : Prop where
  bits : m.log2 = 52
  low : -1074 ≤ e
  high : e ≤ 971

theorem unpackSign_packComponents (s : Sign) (exponent : BitVec 11) (mantissa : BitVec 52) :
    unpackSign (packComponents Format.binary64 s exponent mantissa) = s.toBitVec := by
  apply BitVec.eq_of_toNat_eq
  have hExponent := exponent.isLt
  have hMantissa := mantissa.isLt
  simp only [unpackSign, packComponents, BitVec.toNat_cast, BitVec.extractLsb_toNat,
    BitVec.toNat_append, ← Nat.shiftLeft_add_eq_or_of_lt hExponent,
    ← Nat.shiftLeft_add_eq_or_of_lt hMantissa]
  norm_num [Nat.shiftLeft_eq, Nat.shiftRight_eq_div_pow]
  cases s <;> simp [Sign.toBitVec] <;> omega

namespace Significant

variable {m : Nat} {e : Int}

theorem pos (h : Significant m e) : 0 < m := by
  rcases Nat.eq_zero_or_pos m with rfl | hPos
  · exact absurd h.bits (by decide)
  · exact hPos

theorem bounds (h : Significant m e) : 2 ^ 52 ≤ m ∧ m < 2 ^ 53 :=
  (Nat.log2_eq_iff (Nat.ne_of_gt h.pos)).1 h.bits

/-- The packed form: one sign bit, the exponent with its bias, the mantissa without its leading
bit. -/
theorem pack_eq (h : Significant m e) (s : Sign) :
    UnpackedFloat.pack Format.binary64 (.finite s m e h.pos) =
      packComponents Format.binary64 s (BitVec.ofNat 11 (e + 1075).toNat) (BitVec.ofNat 52 m) := by
  have hBiased : (e + 1023 + 52).toNat = (e + 1075).toNat := by congr 1; omega
  have hHigh := h.high
  simp only [UnpackedFloat.pack, Format.exponentBias, Format.mantissaBits, h.bits]
  norm_num
  rw [hBiased, if_neg (by omega)]

theorem toNat_exponent (h : Significant m e) :
    (BitVec.ofNat 11 (e + 1075).toNat).toNat = (e + 1075).toNat := by
  have hHigh := h.high
  rw [BitVec.toNat_ofNat, Nat.mod_eq_of_lt (by omega)]

theorem toNat_fraction (h : Significant m e) : (BitVec.ofNat 52 m).toNat = m - 2 ^ 52 := by
  have hBounds := h.bounds
  rw [BitVec.toNat_ofNat]
  omega

/-- A packed number is unpacked into the parts that it was made of. -/
theorem unpack_pack (h : Significant m e) (s : Sign) :
    (Float.Model.pack (.finite s m e h.pos)).unpack = .finite s m e h.pos := by
  have hLow := h.low
  have hHigh := h.high
  have hBounds := h.bounds
  -- the exponent is neither that of the infinities nor that of the smallest doubles
  have hNotSpecial : BitVec.ofNat 11 (e + 1075).toNat ≠ -1#11 := by
    intro hEq
    have hNat := h.toNat_exponent.symm.trans (congrArg BitVec.toNat hEq)
    have hSpecial : (-1#11).toNat = 2047 := rfl
    omega
  have hNotSmall : BitVec.ofNat 11 (e + 1075).toNat ≠ 0#11 := by
    intro hEq
    have hNat := h.toNat_exponent.symm.trans (congrArg BitVec.toNat hEq)
    have hSmall : (0#11).toNat = 0 := rfl
    omega
  unfold Float.Model.unpack Float.Model.pack
  simp only [UnpackedFloat.unpack, h.pack_eq, unpackSign_packComponents,
    unpackExponent_packComponents, unpackMantissa_packComponents]
  rw [if_neg hNotSpecial, if_neg hNotSmall]
  have hMantissa : (1#1 ++ BitVec.ofNat 52 m).toNat = m := by
    rw [BitVec.toNat_append, h.toNat_fraction, ← Nat.shiftLeft_add_eq_or_of_lt (by omega),
      Nat.shiftLeft_eq]
    norm_num
    omega
  have hExponent : ((BitVec.ofNat 11 (e + 1075).toNat).toNat : Int) - (1023 + 52) = e := by
    rw [h.toNat_exponent]
    omega
  have hSign : Sign.ofBitVec s.toBitVec = s := by cases s <;> rfl
  congr 1

theorem parts_pack (h : Significant m e) (s : Sign) :
    parts ⟨Float.Model.pack (.finite s m e h.pos)⟩ = .finite (s == .negative) m e := by
  rw [parts_eq, h.unpack_pack]
  rfl

end Significant

/-! ## Rounding -/

theorem targetExponent_binary64 (total : Int) :
    Format.binary64.targetExponent total = max (total - 53) (-1074) := rfl

theorem mantissa_shiftRight (em : ExtendedMantissa) (k : Nat) :
    (em >>> k).mantissa = em.mantissa / 2 ^ k := by
  induction k with
  | zero => exact (Nat.div_one _).symm
  | succ k ih =>
    have hStep : em >>> (k + 1) = (em >>> k).shiftRightOne := rfl
    rw [hStep, ExtendedMantissa.shiftRightOne, ih, Nat.div_div_eq_div_mul, pow_succ]

/-- No bit is lost of a mantissa that ends with as many zeros. -/
theorem shiftRight_mul (q k : Nat) :
    (⟨q * 2 ^ k, false, false⟩ : ExtendedMantissa) >>> k = ⟨q, false, false⟩ := by
  induction k generalizing q with
  | zero => rw [pow_zero, Nat.mul_one]; rfl
  | succ k ih =>
    have hStep : (⟨q * 2 ^ (k + 1), false, false⟩ : ExtendedMantissa) >>> (k + 1) =
        ((⟨q * 2 ^ (k + 1), false, false⟩ : ExtendedMantissa) >>> k).shiftRightOne := rfl
    rw [hStep, show q * 2 ^ (k + 1) = (q * 2) * 2 ^ k by ring, ih]
    simp [ExtendedMantissa.shiftRightOne]

theorem roundedMantissa_bounds (em : ExtendedMantissa) :
    em.mantissa ≤ em.roundedMantissa ∧ em.roundedMantissa ≤ em.mantissa + 1 := by
  obtain ⟨m, roundBit, stickyBit⟩ := em
  cases roundBit <;> cases stickyBit <;>
    simp [ExtendedMantissa.roundedMantissa, ExtendedMantissa.accuracy,
      Accuracy.roundToNearestEven]
  omega

variable {m k : Nat} {e : Int}

/-- A mantissa that is `k` bits too long is shifted by as many. -/
theorem shiftToTargetExponent_eq (hLog : m.log2 = 52 + k) (hLow : -1074 ≤ e + k) :
    shiftToTargetExponent Format.binary64 m e .exact =
      ((⟨m, false, false⟩ : ExtendedMantissa) >>> k, e + k) := by
  have hTarget : Format.binary64.targetExponent (totalExponent m e) = e + k := by
    rw [targetExponent_binary64, totalExponent, hLog]
    push_cast
    omega
  simp [shiftToTargetExponent, shiftToExponent, hTarget, ExtendedMantissa.ofMantissaAndAccuracy]

theorem div_bounds (hLog : m.log2 = 52 + k) : 2 ^ 52 ≤ m / 2 ^ k ∧ m / 2 ^ k < 2 ^ 53 := by
  have hPos : m ≠ 0 := by
    rintro rfl
    rw [Nat.log2_zero] at hLog
    omega
  obtain ⟨hLow, hHigh⟩ := (Nat.log2_eq_iff hPos).1 hLog
  constructor
  · rw [Nat.le_div_iff_mul_le (by positivity), ← pow_add]
    exact hLow
  · rw [Nat.div_lt_iff_lt_mul (by positivity), ← pow_add]
    rwa [show 53 + k = 52 + k + 1 by omega]

/-- Rounding gives all 53 bits, and loses nothing of a mantissa that ends with enough zeros. -/
theorem roundWithAccuracy_eq (s : Sign) (hLog : m.log2 = 52 + k) (hLow : -1074 ≤ e + k)
    (hHigh : e + k ≤ 970) :
    ∃ q e', ∃ h : Significant q e',
      roundWithAccuracy Format.binary64 s m e .exact = .finite s q e' h.pos ∧
        ∀ p, m = p * 2 ^ k → q = p ∧ e' = e + k := by
  have hFirst := shiftToTargetExponent_eq hLog hLow
  obtain ⟨hDivLow, hDivHigh⟩ := div_bounds hLog
  obtain ⟨hRoundLow, hRoundHigh⟩ :=
    roundedMantissa_bounds ((⟨m, false, false⟩ : ExtendedMantissa) >>> k)
  rw [mantissa_shiftRight] at hRoundLow hRoundHigh
  have hExact : ∀ p, m = p * 2 ^ k →
      ((⟨m, false, false⟩ : ExtendedMantissa) >>> k).roundedMantissa = p := by
    rintro p rfl
    rw [shiftRight_mul]
    rfl
  obtain ⟨r, hr⟩ : ∃ r, r = ((⟨m, false, false⟩ : ExtendedMantissa) >>> k).roundedMantissa :=
    ⟨_, rfl⟩
  unfold roundWithAccuracy
  simp only [hFirst, ← hr] at hRoundLow hRoundHigh hExact ⊢
  by_cases hFull : r < 2 ^ 53
  · have hBits : r.log2 = 52 := (Nat.log2_eq_iff (by omega)).2 ⟨by omega, hFull⟩
    have hSecond := shiftToTargetExponent_eq (k := 0) (e := e + k) hBits (by omega)
    have hNormal : Significant r (e + k) := ⟨hBits, hLow, by omega⟩
    simp only [hSecond, mantissa_shiftRight, pow_zero, Nat.div_one, Nat.cast_zero, add_zero]
    refine ⟨r, e + k, hNormal, ?_, fun p hp => ⟨hExact p hp, rfl⟩⟩
    rw [dif_neg (by omega)]
  · -- the carry makes the mantissa one bit longer
    obtain rfl : r = 2 ^ 53 := by omega
    have hBits : (2 ^ 53).log2 = 52 + 1 := Nat.log2_two_pow
    have hSecond := shiftToTargetExponent_eq (k := 1) (e := e + k) hBits (by push_cast; omega)
    have hNormal : Significant (2 ^ 52) (e + k + 1) := ⟨Nat.log2_two_pow, by omega, by omega⟩
    simp only [hSecond, mantissa_shiftRight]
    refine ⟨2 ^ 52, e + k + 1, hNormal, rfl, fun p hp => ?_⟩
    have hSmall : p < 2 ^ 53 := by
      have hDiv : m / 2 ^ k = p := by rw [hp, Nat.mul_div_cancel _ (by positivity)]
      omega
    have hEq := hExact p hp
    omega

end ItemComposition.Binary64
