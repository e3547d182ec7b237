import Mathlib
import ItemComposition.Binary64

/-!
# The values of doubles

A finite double stands for a rational number. Its sign, mantissa and exponent are the ones that it
is unpacked into for arithmetic, and they are the only ones for its value but for the sign of zero.
So two finite doubles are equal exactly if they stand for the same number.

## Key results

- `parts_eq`: the parts of a double are what it is unpacked into
- `Canonical.eq_of_mul_eq`: a magnitude is written in one way only
- `beq_iff_value`: equality of finite doubles
-/

namespace ItemComposition.Binary64

open Float.Model Float.Model.UnpackedFloat

/-! ## Unpacking -/

/-- What an unpacked double stands for. -/
def partsOf : UnpackedFloat → Parts
  | .notANumber => .nan
  | .infinity s => .infinite (s == .negative)
  | .zero s => .finite (s == .negative) 0 (-1074)
  | .finite s m e _ => .finite (s == .negative) m e

theorem toNat_unpackExponent (b : BitVec 64) :
    (@unpackExponent Format.binary64 b).toNat = b.toNat / 2 ^ 52 % 2048 := by
  simp only [unpackExponent, BitVec.toNat_cast, BitVec.extractLsb_toNat]
  norm_num [Nat.shiftRight_eq_div_pow]

theorem toNat_unpackMantissa (b : BitVec 64) :
    (@unpackMantissa Format.binary64 b).toNat = b.toNat % 2 ^ 52 := by
  simp only [unpackMantissa, BitVec.toNat_cast, BitVec.extractLsb_toNat]
  norm_num

theorem toNat_unpackSign (b : BitVec 64) :
    (@unpackSign Format.binary64 b).toNat = b.toNat / 2 ^ 63 := by
  have hSize := b.isLt
  simp only [unpackSign, BitVec.toNat_cast, BitVec.extractLsb_toNat]
  norm_num [Nat.shiftRight_eq_div_pow]
  omega

theorem sign_unpackSign (b : BitVec 64) :
    (Sign.ofBitVec (@unpackSign Format.binary64 b) == .negative) =
      decide (b.toNat / 2 ^ 63 = 1) := by
  have hSign := toNat_unpackSign b
  -- the sign is one bit, so it is one where it is not zero
  have hLess : b.toNat / 2 ^ 63 < 2 := by
    have hSize := b.isLt
    omega
  unfold Sign.ofBitVec
  split
  · next hZero =>
    rw [hZero] at hSign
    rw [← hSign]
    rfl
  · next hNe =>
    have hOne : b.toNat / 2 ^ 63 ≠ 0 := by
      intro hEq
      apply hNe
      apply BitVec.eq_of_toNat_eq
      rw [hSign, hEq]
      rfl
    rw [show b.toNat / 2 ^ 63 = 1 by omega]
    rfl

/-- The parts of a double are those that it is unpacked into. -/
theorem parts_eq (x : Float) : parts x = partsOf x.toModel.unpack := by
  have hSign := sign_unpackSign x.toModel.toBits.toBitVec
  have hExponent := toNat_unpackExponent x.toModel.toBits.toBitVec
  have hMantissa := toNat_unpackMantissa x.toModel.toBits.toBitVec
  have hBits : x.toBits.toNat = x.toModel.toBits.toBitVec.toNat := rfl
  unfold parts Float.Model.unpack UnpackedFloat.unpack
  simp only [hBits, Nat.pow_eq]
  rw [← hExponent, ← hMantissa]
  -- both look at the same fields, one as bits and one as numbers
  have hSpecial : @unpackExponent Format.binary64 x.toModel.toBits.toBitVec = -1#_ ↔
      (@unpackExponent Format.binary64 x.toModel.toBits.toBitVec).toNat = 2047 := by
    rw [← BitVec.toNat_inj]
    rfl
  have hSmall : @unpackExponent Format.binary64 x.toModel.toBits.toBitVec = 0#_ ↔
      (@unpackExponent Format.binary64 x.toModel.toBits.toBitVec).toNat = 0 := by
    rw [← BitVec.toNat_inj]
    rfl
  have hZero : @unpackMantissa Format.binary64 x.toModel.toBits.toBitVec = 0#_ ↔
      (@unpackMantissa Format.binary64 x.toModel.toBits.toBitVec).toNat = 0 := by
    rw [← BitVec.toNat_inj]
    rfl
  simp only [hSpecial, hSmall]
  split
  · split
    · next h => rw [if_pos (hZero.2 h), partsOf, hSign]
    · next h => rw [if_neg (fun h' => h (hZero.1 h')), partsOf]
  · split
    · next hE =>
      split
      · next h => rw [partsOf, hSign, hZero.1 h]
      · next h =>
        rw [partsOf, hSign]
        simp only [hE]
        rfl
    · rw [partsOf, hSign, BitVec.toNat_append, ← Nat.shiftLeft_add_eq_or_of_lt (BitVec.isLt _),
        Nat.shiftLeft_eq]
      rfl

/-! ## Canonical parts -/

/-- The mantissa and the exponent of a finite double: there is one way only to write its value. -/
structure Canonical (m : Nat) (e : Int) : Prop where
  mantissa : m < 2 ^ 53
  low : -1074 ≤ e
  high : e ≤ 971
  /-- Only the least exponent goes with a mantissa that begins with a zero. -/
  leading : e = -1074 ∨ 2 ^ 52 ≤ m

theorem canonical_of_parts {x : Float} {n : Bool} {m : Nat} {e : Int}
    (h : parts x = .finite n m e) : Canonical m e := by
  have hFraction : x.toBits.toNat % Nat.pow 2 52 < 2 ^ 52 := Nat.mod_lt _ (by decide)
  have hPow : Nat.pow 2 52 = 2 ^ 52 := rfl
  unfold parts at h
  simp only at h
  split at h
  · split at h <;> cases h
  · split at h
    · cases h
      exact ⟨by omega, by omega, by omega, .inl rfl⟩
    · cases h
      refine ⟨by omega, by omega, by omega, .inr (by omega)⟩

theorem beq_iff_of_parts {x y : Float} {n n' : Bool} {m m' : Nat} {e e' : Int}
    (hx : parts x = .finite n m e) (hy : parts y = .finite n' m' e') :
    (x == y) = true ↔ m = m' ∧ e = e' ∧ (m = 0 ∨ n = n') := by
  have hBeq : (x == y) = x.toModel.unpack.beq y.toModel.unpack := rfl
  rw [parts_eq] at hx hy
  rw [hBeq, UnpackedFloat.beq]
  -- the sign of zero does not count, that of other numbers does
  cases hu : x.toModel.unpack with
  | notANumber | infinity => rw [hu] at hx; cases hx
  | zero s =>
    rw [hu] at hx
    cases hx
    cases hv : y.toModel.unpack with
    | notANumber | infinity => rw [hv] at hy; cases hy
    | zero s' =>
      rw [hv] at hy
      cases hy
      simp [UnpackedFloat.compare]
    | finite s' m' e' pos =>
      rw [hv] at hy
      cases hy
      cases s' <;> simp [UnpackedFloat.compare] <;> omega
  | finite s m e pos =>
    rw [hu] at hx
    cases hx
    cases hv : y.toModel.unpack with
    | notANumber | infinity => rw [hv] at hy; cases hy
    | zero s' =>
      rw [hv] at hy
      cases hy
      cases s <;> simp [UnpackedFloat.compare] <;> omega
    | finite s' m' e' pos' =>
      rw [hv] at hy
      cases hy
      have hm : m ≠ 0 := by omega
      cases s <;> cases s' <;> simp [UnpackedFloat.compare, Ordering.then_eq_eq, hm, and_comm]

/-! ## Values -/

/-- The exact value of a double; `0` for what is no number. -/
def value (x : Float) : ℚ :=
  match parts x with
  | .finite negative m e => signed negative m * 2 ^ e
  | _ => 0

/-- The sign does not count for the magnitude. -/
theorem abs_signed_mul (negative : Bool) (m : Nat) (e : Int) :
    |((signed negative m : Int) : ℚ) * 2 ^ e| = m * 2 ^ e := by
  have hPow : (0 : ℚ) < 2 ^ e := by positivity
  cases negative <;> simp [signed, abs_mul, abs_of_pos hPow]

theorem exists_parts_of_isFinite {x : Float} (h : x.isFinite = true) :
    ∃ n m e, parts x = .finite n m e := by
  have hFinite : x.toModel.unpack.isFinite = true := h
  rw [parts_eq]
  cases hu : x.toModel.unpack with
  | notANumber | infinity => rw [hu] at hFinite; cases hFinite
  | zero s => exact ⟨_, _, _, rfl⟩
  | finite s m e pos => exact ⟨_, _, _, rfl⟩

/-- Canonical magnitudes are equal only if they are written alike. -/
theorem Canonical.eq_of_mul_eq {m m' : Nat} {e e' : Int} (h : Canonical m e)
    (h' : Canonical m' e') (hEq : (m : ℚ) * 2 ^ e = m' * 2 ^ e') : m = m' ∧ e = e' := by
  wlog hLe : e ≤ e' generalizing m m' e e'
  · obtain ⟨hm, he⟩ := this h' h hEq.symm (by omega)
    exact ⟨hm.symm, he.symm⟩
  obtain ⟨k, rfl⟩ := Int.le.dest hLe
  have hNat : m = m' * 2 ^ k := by
    rw [zpow_add₀ (by norm_num), mul_comm ((2 : ℚ) ^ e), ← mul_assoc] at hEq
    have hCancel := mul_right_cancel₀ (zpow_ne_zero e (by norm_num)) hEq
    rw [zpow_natCast] at hCancel
    exact_mod_cast hCancel
  have hSmall := h.mantissa
  have hBig := h'.leading
  have hLow := h.low
  -- a greater exponent goes with a mantissa that begins with a one
  cases k with
  | zero => simp [hNat]
  | succ k =>
    have hTwo : m' * 2 ≤ m := by
      rw [hNat]
      exact Nat.mul_le_mul_left m' (Nat.le_self_pow (Nat.succ_ne_zero k) 2)
    omega

/-- Finite doubles are equal exactly if their values are. -/
theorem beq_iff_value {x y : Float} (hx : x.isFinite = true) (hy : y.isFinite = true) :
    (x == y) = true ↔ value x = value y := by
  obtain ⟨n, m, e, hx⟩ := exists_parts_of_isFinite hx
  obtain ⟨n', m', e', hy⟩ := exists_parts_of_isFinite hy
  rw [beq_iff_of_parts hx hy, value, value, hx, hy]
  -- canonical parts are determined by the magnitude, and the two signs of zero have one value
  simp only
  have hc := canonical_of_parts hx
  have hc' := canonical_of_parts hy
  constructor
  · rintro ⟨rfl, rfl, rfl | rfl⟩
    · cases n <;> cases n' <;> simp [signed]
    · rfl
  · intro hEq
    have hAbs := congrArg (|·|) hEq
    simp only [abs_signed_mul] at hAbs
    obtain ⟨rfl, rfl⟩ := hc.eq_of_mul_eq hc' hAbs
    refine ⟨rfl, rfl, ?_⟩
    have hSigned := mul_right_cancel₀ (zpow_ne_zero e (by norm_num)) hEq
    rw [Int.cast_inj] at hSigned
    cases n <;> cases n' <;> simp [signed] at hSigned ⊢ <;> omega

end ItemComposition.Binary64
