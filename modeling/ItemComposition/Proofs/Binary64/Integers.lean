import ItemComposition.Proofs.Binary64.Nearest
import ItemComposition.Proofs.Binary64.Order
import ItemComposition.Proofs.Binary64.WholeNumbers

/-!
# Doubles that are whole numbers

The bits of a whole number behind the point are zeros, so neither cutting them off nor rounding at
them changes the number.

## Key results

- `value_of_toInt?`: the whole number that a double is read as is its value
- `round?_of_value`: a whole number is rounded to itself
- `exists_nearest_natCast`: the double nearest to a whole number is one
-/

namespace ItemComposition.Binary64

variable {x : Float} {negative : Bool} {m k : ℕ} {e n : ℤ}

theorem value_eq_signed (h : parts x = .finite negative m e) (hk : (m : ℚ) * 2 ^ e = k) :
    value x = (signed negative k : ℤ) := by
  rw [value, h]
  simp only
  rw [signed_mul, hk]
  cases negative <;> simp [signed]

/-- A mantissa that ends with as many zeros as there are bits behind the point. -/
theorem eq_mul_of_mul_negSucc {e : ℕ} (hk : (m : ℚ) * 2 ^ (Int.negSucc e) = k) :
    m = k * 2 ^ (e + 1) := by
  rw [zpow_negSucc, mul_inv_eq_iff_eq_mul₀ (by positivity)] at hk
  exact_mod_cast hk

/-- The whole number that a double is read as is its value. -/
theorem value_of_toInt? (h : toInt? x = some n) : x.isFinite = true ∧ value x = n := by
  unfold toInt? at h
  split at h
  · next hWhole =>
    cases hParts : parts x with
    | nan | infinite => simp [truncate?, hParts] at h
    | finite negative m e =>
      refine ⟨isFinite_of_parts hParts, ?_⟩
      -- an exponent that is not negative only appends zeros; a negative one cuts digits off, and
      -- nothing is lost because the digits cut off are zeros
      cases e with
      | ofNat e =>
        simp only [truncate?, hParts, Option.some.injEq] at h
        rw [← h]
        refine value_eq_signed hParts ?_
        rw [Nat.shiftLeft_eq, Int.ofNat_eq_natCast, zpow_natCast]
        push_cast
        rfl
      | negSucc e =>
        simp only [truncate?, hParts, Option.some.injEq] at h
        simp only [isWhole, hParts, Nat.pow_eq, decide_eq_true_eq] at hWhole
        have hDivides : m / 2 ^ (e + 1) * 2 ^ (e + 1) = m :=
          Nat.div_mul_cancel (Nat.dvd_of_mod_eq_zero hWhole)
        rw [← h, Nat.shiftRight_eq_div_pow]
        refine value_eq_signed hParts ?_
        rw [zpow_negSucc, mul_inv_eq_iff_eq_mul₀ (by positivity)]
        exact_mod_cast hDivides.symm
  · cases h

theorem round?_of_parts (h : parts x = .finite negative m e) (hk : (m : ℚ) * 2 ^ e = k) :
    round? x = some (signed negative k) := by
  cases e with
  | ofNat e =>
    have hShift : m <<< e = k := by
      rw [Int.ofNat_eq_natCast, zpow_natCast] at hk
      rw [Nat.shiftLeft_eq]
      exact_mod_cast hk
    simp only [round?, h, hShift]
  | negSucc e =>
    -- the half that is added stays behind the point
    have hShift : (m + Nat.pow 2 e) >>> (e + 1) = k := by
      have hHalf : 2 ^ e < 2 ^ (e + 1) := Nat.pow_lt_pow_right (by norm_num) (Nat.lt_succ_self e)
      rw [Nat.shiftRight_eq_div_pow, eq_mul_of_mul_negSucc hk, Nat.pow_eq, add_comm,
        Nat.add_mul_div_right _ _ (by positivity), Nat.div_eq_of_lt hHalf, Nat.zero_add]
    simp only [round?, h, hShift]

/-- A whole number is rounded to itself. -/
theorem round?_of_value (hx : x.isFinite = true) (h : value x = n) : round? x = some n := by
  obtain ⟨negative, m, e, hParts⟩ := exists_parts_of_isFinite hx
  have hMagnitude : (m : ℚ) * 2 ^ e = n.natAbs := by
    rw [← abs_signed_mul negative, Nat.cast_natAbs, Int.cast_abs, ← h, value, hParts]
  have hSigned : signed negative n.natAbs = n := by
    have hEq := (value_eq_signed hParts hMagnitude).symm.trans h
    exact_mod_cast hEq
  rw [round?_of_parts hParts hMagnitude, hSigned]

/-- The double nearest to a whole number is one: a unit with a part behind the point is only used for
numbers that are doubles themselves. -/
theorem exists_nearest_natCast (k : ℕ) : ∃ n : ℕ, nearest k = n := by
  rcases le_or_gt 0 (unit k) with hWhole | hFraction
  · obtain ⟨t, ht⟩ := Int.eq_ofNat_of_zero_le hWhole
    refine ⟨units k * 2 ^ t, ?_⟩
    rw [nearest_of_nonneg (Nat.cast_nonneg k), ht, zpow_natCast, Nat.cast_mul, Nat.cast_pow,
      Nat.cast_ofNat]
  · have hUnit : (2 : ℚ) ^ unit k ≤ 1 := zpow_le_one_of_nonpos₀ (by norm_num) hFraction.le
    have hSmall : (k : ℚ) ≤ 2 ^ 53 := by
      have hLe := le_two_pow_unit k
      nlinarith
    exact ⟨k, nearest_eq_self (fewBits_natCast (by exact_mod_cast hSmall))⟩

end ItemComposition.Binary64
