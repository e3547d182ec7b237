import ItemComposition.Expr.Parser
import ItemComposition.Proofs.Binary64.Rounding

/-!
# Numerals

The decimal text of a whole number below `2 ^ 53` reads back as that number. Reading turns the
digits into a double and the double back into a whole number, and both are exact in this range: the
double is `m · 2 ^ e` with the 53-bit mantissa `m` that is the number shifted to the left, and
dividing it by the power of ten of an empty fraction changes nothing.

## Key results

- `Normal.roundWithAccuracy`: a mantissa of 53 bits is not rounded
- `Normal.div_one`: dividing by one
- `Json.ofFloat_numberValue`: the numeral of a whole number is read as that number
-/

namespace ItemComposition

open Float.Model Float.Model.UnpackedFloat

namespace Binary64

/-! ## Packing -/

/-- The mantissa and the exponent of a double from `1` up and below `2 ^ 53`. -/
structure Normal (m : Nat) (e : Int) : Prop where
  bits : m.log2 = 52
  low : -52 ≤ e
  high : e ≤ 0

namespace Normal

variable {m : Nat} {e : Int}

theorem significant (h : Normal m e) : Significant m e := by
  have hLow := h.low
  have hHigh := h.high
  exact ⟨h.bits, by omega, by omega⟩

theorem pos (h : Normal m e) : 0 < m := h.significant.pos

theorem unpack_pack (h : Normal m e) :
    (Float.Model.pack (.finite .positive m e h.pos)).unpack = .finite .positive m e h.pos :=
  h.significant.unpack_pack .positive

/-- A packed number is taken apart into the parts it was made of. -/
theorem parts_pack (h : Normal m e) :
    parts ⟨Float.Model.pack (.finite .positive m e h.pos)⟩ = .finite false m e :=
  h.significant.parts_pack .positive

end Normal

/-! ## Rounding

A number whose mantissa already has 53 bits, or is twice such a mantissa, is not rounded. -/

theorem Normal.roundWithAccuracy {m : Nat} {e : Int} (h : Normal m e) :
    roundWithAccuracy Format.binary64 .positive m e .exact = .finite .positive m e h.pos := by
  have hLow := h.low
  have hHigh := h.high
  obtain ⟨q, e', hResult, hRound, hExact⟩ :=
    roundWithAccuracy_eq (e := e) (k := 0) .positive h.bits (by omega) (by omega)
  obtain ⟨rfl, rfl⟩ := hExact m (by rw [pow_zero, Nat.mul_one])
  simpa using hRound

theorem Normal.roundWithAccuracy_double {m : Nat} {e : Int} (h : Normal m e) :
    UnpackedFloat.roundWithAccuracy Format.binary64 .positive (2 * m) (e - 1) .exact =
      .finite .positive m e h.pos := by
  have hLow := h.low
  have hHigh := h.high
  have hBounds := h.significant.bounds
  have hBits : (2 * m).log2 = 52 + 1 := (Nat.log2_eq_iff (by omega)).2 (by omega)
  obtain ⟨q, e', hResult, hRound, hExact⟩ :=
    roundWithAccuracy_eq (e := e - 1) .positive hBits (by push_cast; omega) (by push_cast; omega)
  obtain ⟨rfl, rfl⟩ := hExact m (by rw [pow_one, Nat.mul_comm])
  simpa using hRound

/-- The double `1` that stands first among the powers of ten. -/
theorem unpack_one : (Float.Model.ofBits 4607182418800017408).unpack =
    .finite .positive (2 ^ 52) (-52) (by decide) := rfl

/-- Dividing by one. -/
theorem Normal.div_one {m : Nat} {e : Int} (h : Normal m e) :
    UnpackedFloat.div Format.binary64 (.finite .positive m e h.pos)
      (.finite .positive (2 ^ 52) (-52) (by decide)) = .finite .positive m e h.pos := by
  have hLow := h.low
  -- the quotient is aligned one exponent below, so the mantissa is doubled and nothing is cut
  have hTarget : Format.binary64.targetExponent
      (totalExponent m e - totalExponent (2 ^ 52) (-52)) = e - 1 := by
    rw [targetExponent_binary64, totalExponent, totalExponent, h.bits, Nat.log2_two_pow]
    omega
  have hMin : min (e - -52) (e - 1) = e - 1 := by omega
  have hShift : (e - -52 - (e - 1)).toNat = 53 := by omega
  have hCore : divCore Format.binary64 m e (2 ^ 52) (-52) = (2 * m, e - 1, .exact) := by
    have hWhole : m <<< 53 = 2 * m * 2 ^ 52 := by rw [Nat.shiftLeft_eq]; ring
    simp only [divCore, hTarget, hMin, hShift]
    rw [hWhole, Nat.mul_div_cancel _ (by decide), Nat.mul_mod_left]
    rfl
  simp only [UnpackedFloat.div, hCore]
  exact h.roundWithAccuracy_double

/-! ## Whole numbers

A whole number is moved to the left end of the 53 bits of a mantissa, and the exponent undoes that.
-/

/-- The bits of a mantissa that a whole number leaves free. -/
def room (n : Nat) : Nat := 52 - n.log2

section

variable {n : Nat}

theorem normal_of_lt (pos : 0 < n) (small : n < 2 ^ 53) :
    Normal (n <<< room n) (-(room n : Int)) := by
  have hLog : n.log2 < 53 := (Nat.log2_lt (by omega)).2 small
  have hRoom : n.log2 + room n = 52 := by unfold room; omega
  obtain ⟨hLow, hHigh⟩ := (Nat.log2_eq_iff (Nat.ne_of_gt pos)).1 (rfl : n.log2 = n.log2)
  refine ⟨?_, by omega, by omega⟩
  rw [Nat.shiftLeft_eq]
  refine (Nat.log2_eq_iff (Nat.ne_of_gt (Nat.mul_pos pos (by positivity)))).2 ⟨?_, ?_⟩
  · calc 2 ^ 52 = 2 ^ n.log2 * 2 ^ room n := by rw [← Nat.pow_add, hRoom]
      _ ≤ n * 2 ^ room n := Nat.mul_le_mul_right _ hLow
  · calc n * 2 ^ room n < 2 ^ (n.log2 + 1) * 2 ^ room n :=
          Nat.mul_lt_mul_of_pos_right hHigh (by positivity)
      _ = 2 ^ (52 + 1) := by rw [← Nat.pow_add, Nat.add_right_comm, hRoom]

theorem ofNat_eq (pos : 0 < n) (small : n < 2 ^ 53) :
    UnpackedFloat.ofNat Format.binary64 n =
      .finite .positive (n <<< room n) (-(room n : Int)) (normal_of_lt pos small).pos := by
  have hNormal := normal_of_lt pos small
  have hLog : n.log2 < 53 := (Nat.log2_lt (by omega)).2 small
  -- the number has room for 53 bits, and that is how far it is shifted
  have hTarget : Format.binary64.targetExponent (totalExponent n 0) = -(room n : Int) := by
    rw [targetExponent_binary64, totalExponent, room]
    omega
  have hShift : (0 - -(room n : Int)).toNat = room n := by omega
  rw [UnpackedFloat.ofNat, UnpackedFloat.ofInt, UnpackedFloat.normalize,
    Int.compare_eq_gt.2 (by omega)]
  simp only [Int.toNat_natCast, UnpackedFloat.round, hTarget, decreaseExponent, hShift]
  simp only [Int.zero_sub]
  exact hNormal.roundWithAccuracy

theorem unpack_ofUInt64 (pos : 0 < n) (small : n < 2 ^ 53) :
    (Float.Model.ofUInt64 n.toUInt64).unpack =
      .finite .positive (n <<< room n) (-(room n : Int)) (normal_of_lt pos small).pos := by
  have hWord : n.toUInt64.toNat = n := by
    rw [Nat.toUInt64_eq, UInt64.toNat_ofNat']
    omega
  rw [Float.Model.ofUInt64, UnpackedFloat.ofUInt64, hWord, ofNat_eq pos small,
    (normal_of_lt pos small).unpack_pack]

/-- The exponent undoes the shift. -/
theorem toInt?_of_parts {x : Float} {places : Nat}
    (h : parts x = .finite false (n <<< places) (-(places : Int))) : toInt? x = some n := by
  cases places with
  | zero => simp [toInt?, isWhole, truncate?, signed, h]
  | succ places =>
    have hWhole : (n <<< (places + 1)) % 2 ^ (places + 1) = 0 := by
      rw [Nat.shiftLeft_eq]
      exact Nat.mul_mod_left _ _
    have hExponent : -((places + 1 : Nat) : Int) = .negSucc places := rfl
    rw [hExponent] at h
    simp [toInt?, isWhole, truncate?, signed, h, hWhole]

/-- Reading a numeral without a fraction divides by one, which is exact. -/
theorem toInt?_ofScientific (small : n < 2 ^ 53) :
    toInt? (Float.ofScientific n true 0) = some n := by
  have hQuotient : Float.ofScientific n true 0 =
      ⟨Float.Model.ofUInt64 n.toUInt64 / Float.Model.ofBits 4607182418800017408⟩ := by
    rw [Float.ofScientific, dif_pos ⟨small, by decide⟩]
    rfl
  -- a numeral without a point is the quotient of its digits by ten to the zero, which is one
  rcases Nat.eq_zero_or_pos n with rfl | pos
  · decide +kernel
  · have hNormal := normal_of_lt pos small
    have hDiv : Float.Model.ofUInt64 n.toUInt64 / Float.Model.ofBits 4607182418800017408 =
        Float.Model.pack (.finite .positive (n <<< room n) (-(room n : Int)) hNormal.pos) := by
      change Float.Model.div _ _ = _
      rw [Float.Model.div, unpack_ofUInt64 pos small, unpack_one, hNormal.div_one]
    have hParts : parts (Float.ofScientific n true 0) =
        .finite false (n <<< room n) (-(room n : Int)) := by
      rw [hQuotient, hDiv]
      exact hNormal.parts_pack
    exact toInt?_of_parts hParts

end

end Binary64

/-- The numeral of a whole number is read as that number. -/
theorem Json.ofFloat_numberValue {n : Nat} (small : n < 2 ^ 53) :
    Json.ofFloat (Token.numberValue (Decimal.natDigits n) []) = .num (.int n) := by
  have hDigits : (Decimal.natDigits n).foldl (fun v c => v * 10 + (c.toNat - '0'.toNat)) 0 = n := by
    have h := Nat.ofDigitChars_ten_toDigits (n := n)
    rw [Nat.ofDigitChars_eq_foldl] at h
    simpa only [Decimal.natDigits, Nat.mul_comm 10] using h
  have hValue : Token.numberValue (Decimal.natDigits n) [] = Float.ofScientific n true 0 := by
    simp only [Token.numberValue, List.append_nil, hDigits, List.length_nil]
  rw [hValue, Json.ofFloat, Binary64.toInt?_ofScientific small]
  -- a number below 2 ^ 53 is well within the words of 64 bits
  have hLeast : Word.least 64 < (n : Int) := by
    have hEq : Word.least 64 = -9223372036854775808 := rfl
    omega
  have hGreatest : (n : Int) ≤ Word.greatest 64 := by
    have hEq : Word.greatest 64 = 9223372036854775807 := rfl
    omega
  simp [hLeast, hGreatest]

end ItemComposition
