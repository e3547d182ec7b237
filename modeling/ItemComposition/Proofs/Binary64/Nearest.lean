import ItemComposition.Proofs.Binary64.Values

/-!
# The nearest double

Near a number the doubles are the multiples of a power of two. It is the one that leaves 53 bits for
the number, but never less than the least positive double. The nearest double is the nearest of these
multiples, and an even one if two are as near.

## Key results

- `abs_nearest_sub_le`: no double is nearer
- `roundEven_mono`, `nearest_mono`: greater numbers have no smaller nearest ones
- `nearest_eq_self`: a number that some double stands for is its own nearest double
- `abs_nearest_lt_iff`: the numbers whose nearest double is not too great to be one
-/

namespace ItemComposition.Binary64

variable {x r c : ℚ}

/-! ## The nearest whole number -/

/-- The whole number nearest to a number from zero up; a tie goes to the even one. -/
def roundEven (x : ℚ) : ℕ :=
  match compare (x - ⌊x⌋₊) (1 / 2) with
  | .lt => ⌊x⌋₊
  | .eq => ⌊x⌋₊ + ⌊x⌋₊ % 2
  | .gt => ⌊x⌋₊ + 1

theorem roundEven_cases (x : ℚ) :
    (x < ⌊x⌋₊ + 1 / 2 ∧ roundEven x = ⌊x⌋₊) ∨
      (x = ⌊x⌋₊ + 1 / 2 ∧ roundEven x = ⌊x⌋₊ + ⌊x⌋₊ % 2) ∨
      (⌊x⌋₊ + 1 / 2 < x ∧ roundEven x = ⌊x⌋₊ + 1) := by
  rcases lt_trichotomy (x - ⌊x⌋₊) (1 / 2) with hLess | hEq | hMore
  · exact .inl ⟨by linarith, by rw [roundEven, compare_lt_iff_lt.2 hLess]⟩
  · exact .inr (.inl ⟨by linarith, by rw [roundEven, compare_eq_iff_eq.2 hEq]⟩)
  · exact .inr (.inr ⟨by linarith, by rw [roundEven, compare_gt_iff_gt.2 hMore]⟩)

/-- No whole number is nearer. -/
theorem abs_roundEven_sub_le (hx : 0 ≤ x) (k : ℕ) : |(roundEven x : ℚ) - x| ≤ |k - x| := by
  have hFloor := Nat.floor_le hx
  have hNext := Nat.lt_floor_add_one x
  -- the result is at least as near as both neighbours
  have hBoth : |(roundEven x : ℚ) - x| ≤ x - ⌊x⌋₊ ∧ |(roundEven x : ℚ) - x| ≤ ⌊x⌋₊ + 1 - x := by
    rw [abs_le, abs_le]
    rcases roundEven_cases x with ⟨hLess, hEq⟩ | ⟨hHalf, hEq⟩ | ⟨hMore, hEq⟩
    · rw [hEq]
      refine ⟨⟨?_, ?_⟩, ?_, ?_⟩ <;> linarith
    · rcases Nat.mod_two_eq_zero_or_one ⌊x⌋₊ with hEven | hOdd
      · rw [hEq, hEven, Nat.add_zero]
        refine ⟨⟨?_, ?_⟩, ?_, ?_⟩ <;> linarith
      · rw [hEq, hOdd, Nat.cast_add, Nat.cast_one]
        refine ⟨⟨?_, ?_⟩, ?_, ?_⟩ <;> linarith
    · rw [hEq, Nat.cast_add, Nat.cast_one]
      refine ⟨⟨?_, ?_⟩, ?_, ?_⟩ <;> linarith
  rcases Nat.lt_or_ge ⌊x⌋₊ k with hAbove | hBelow
  · have hCast : (⌊x⌋₊ : ℚ) + 1 ≤ k := by exact_mod_cast hAbove
    exact hBoth.2.trans (le_trans (by linarith) (le_abs_self _))
  · have hCast : (k : ℚ) ≤ ⌊x⌋₊ := by exact_mod_cast hBelow
    exact hBoth.1.trans (le_trans (by linarith) (neg_le_abs _))

/-- What is rounded stays on its side of a whole number. -/
theorem roundEven_le {k : ℕ} (h : x ≤ k) : roundEven x ≤ k := by
  have hFloor : ⌊x⌋₊ ≤ k := Nat.floor_le_of_le h
  rcases Nat.lt_or_eq_of_le hFloor with hBelow | hEq
  · rcases roundEven_cases x with ⟨-, hRound⟩ | ⟨-, hRound⟩ | ⟨-, hRound⟩ <;> omega
  · -- the number is the whole number itself, so nothing is rounded up
    rw [← hEq] at h ⊢
    rcases roundEven_cases x with ⟨-, hRound⟩ | ⟨hHalf, -⟩ | ⟨hMore, -⟩
    · exact Nat.le_of_eq hRound
    · linarith
    · linarith

theorem le_roundEven {k : ℕ} (h : (k : ℚ) ≤ x) : k ≤ roundEven x := by
  have hFloor : k ≤ ⌊x⌋₊ := Nat.le_floor h
  rcases roundEven_cases x with ⟨-, hRound⟩ | ⟨-, hRound⟩ | ⟨-, hRound⟩ <;> omega

/-- Half-way below an even number is where the numbers begin that are rounded up to it. -/
theorem le_roundEven_iff {k : ℕ} (hk : k % 2 = 0) (hPos : 0 < k) :
    k ≤ roundEven x ↔ (k : ℚ) - 1 / 2 ≤ x := by
  have hNext := Nat.lt_floor_add_one x
  rcases lt_trichotomy (⌊x⌋₊ + 1) k with hFar | rfl | hAbove
  · have hCast : (⌊x⌋₊ : ℚ) + 1 + 1 ≤ k := by exact_mod_cast hFar
    refine ⟨fun h => ?_, fun h => by linarith⟩
    rcases roundEven_cases x with ⟨-, hRound⟩ | ⟨-, hRound⟩ | ⟨-, hRound⟩ <;> omega
  · -- the number before it is odd, so half-way is rounded up
    rw [Nat.cast_add, Nat.cast_one]
    rcases roundEven_cases x with ⟨hLess, hRound⟩ | ⟨hHalf, hRound⟩ | ⟨hMore, hRound⟩
    · exact ⟨fun h => by omega, fun h => by linarith⟩
    · exact ⟨fun _ => by linarith, fun _ => by omega⟩
    · exact ⟨fun _ => by linarith, fun _ => by omega⟩
  · have hFloor : (k : ℚ) ≤ x := (Nat.le_floor_iff' (Nat.ne_of_gt hPos)).1 (by omega)
    exact ⟨fun _ => by linarith, fun _ => le_roundEven hFloor⟩

/-- Each of two numbers is nearer than the other to a place of its own: they are in the order of
their places. -/
theorem le_of_nearer {a b r' : ℚ} (hr : |a - r| ≤ |b - r|) (hr' : |b - r'| ≤ |a - r'|)
    (hLess : r < r') : a ≤ b := by
  by_contra hMore
  have hOrder : b < a := lt_of_not_ge hMore
  -- the middle of the two would be at most the first place and at least the second
  have hFirst : a + b ≤ 2 * r := by
    have hSquares := sq_le_sq.2 hr
    nlinarith
  have hSecond : 2 * r' ≤ a + b := by
    have hSquares := sq_le_sq.2 hr'
    nlinarith
  linarith

theorem roundEven_mono {r' : ℚ} (hr : 0 ≤ r) (h : r ≤ r') : roundEven r ≤ roundEven r' := by
  rcases h.eq_or_lt with rfl | hLess
  · exact le_refl _
  · have hCast := le_of_nearer (abs_roundEven_sub_le hr (roundEven r'))
      (abs_roundEven_sub_le (hr.trans h) (roundEven r)) hLess
    exact_mod_cast hCast

/-! ## The nearest multiple -/

/-- The exponent of the power of two that the doubles near a number are multiples of. -/
def unit (r : ℚ) : ℤ := max (Int.log 2 r - 52) (-1074)

/-- How many units the nearest double to a number from zero up has. -/
def units (r : ℚ) : ℕ := roundEven (r / 2 ^ unit r)

/-- The double nearest to a number, as if there were no greatest double. -/
def nearest (r : ℚ) : ℚ :=
  if r < 0 then -(units (-r) * 2 ^ unit (-r)) else units r * 2 ^ unit r

theorem nearest_of_nonneg (hr : 0 ≤ r) : nearest r = units r * 2 ^ unit r :=
  if_neg (not_lt.2 hr)

@[simp]
theorem nearest_zero : nearest 0 = 0 := by
  have hUnits : units 0 = 0 := Nat.le_zero.1 (roundEven_le (by simp))
  rw [nearest_of_nonneg (le_refl 0), hUnits, Nat.cast_zero, zero_mul]

theorem nearest_neg (r : ℚ) : nearest (-r) = -nearest r := by
  rcases lt_trichotomy r 0 with hNeg | rfl | hPos
  · rw [nearest, nearest, if_pos hNeg, if_neg (by linarith), neg_neg]
  · rw [neg_zero, nearest_zero, neg_zero]
  · rw [nearest, nearest, if_pos (by linarith), if_neg (by linarith), neg_neg]

theorem nearest_nonneg (hr : 0 ≤ r) : 0 ≤ nearest r := by
  rw [nearest_of_nonneg hr]
  positivity

theorem abs_nearest (r : ℚ) : |nearest r| = nearest |r| := by
  rcases le_or_gt 0 r with hr | hr
  · rw [abs_of_nonneg hr, nearest_of_nonneg hr, abs_of_nonneg (by positivity)]
  · rw [abs_of_neg hr, nearest_neg, abs_of_nonpos]
    rw [nearest, if_pos hr, neg_nonpos]
    positivity

theorem two_mul_two_pow_le {d e : ℤ} (h : d < e) : 2 * (2 : ℚ) ^ d ≤ 2 ^ e := by
  rw [mul_comm, ← zpow_add_one₀ (by norm_num)]
  exact zpow_le_zpow_right₀ (by norm_num) h

theorem two_pow_add (k : ℕ) (e : ℤ) : (2 : ℚ) ^ (k + e) = 2 ^ k * 2 ^ e := by
  rw [zpow_add₀ (by norm_num), zpow_natCast]

theorem le_two_pow_unit (r : ℚ) : r ≤ 2 ^ 53 * 2 ^ unit r := by
  rcases le_or_gt r 0 with hr | hr
  · exact hr.trans (by positivity)
  · have hLog : r < (2 : ℕ) ^ (Int.log 2 r + 1) := Int.lt_zpow_succ_log_self (by norm_num) r
    refine hLog.le.trans ?_
    rw [Nat.cast_ofNat, ← two_pow_add]
    refine zpow_le_zpow_right₀ (by norm_num) ?_
    unfold unit
    omega

theorem two_pow_unit_le (hr : 0 < r) (h : -1074 < unit r) : 2 ^ 52 * 2 ^ unit r ≤ r := by
  have hLog : (2 : ℕ) ^ Int.log 2 r ≤ r := Int.zpow_log_le_self (by norm_num) hr
  have hUnit : Int.log 2 r = (52 : ℕ) + unit r := by
    unfold unit at h ⊢
    omega
  rwa [hUnit, Nat.cast_ofNat, two_pow_add] at hLog

theorem units_le (r : ℚ) : units r ≤ 2 ^ 53 := by
  refine roundEven_le ?_
  rw [div_le_iff₀ (by positivity)]
  exact_mod_cast le_two_pow_unit r

theorem le_units (hr : 0 < r) (h : -1074 < unit r) : 2 ^ 52 ≤ units r := by
  refine le_roundEven ?_
  rw [le_div_iff₀ (by positivity)]
  exact_mod_cast two_pow_unit_le hr h

/-! ## Numbers that doubles stand for -/

/-- A number that 53 bits are enough for, from the least positive double up. -/
def FewBits (c : ℚ) : Prop := ∃ m : ℕ, ∃ e : ℤ, m < 2 ^ 53 ∧ -1074 ≤ e ∧ |c| = m * 2 ^ e

theorem fewBits_zero : FewBits 0 := ⟨0, 0, by norm_num, by norm_num, by simp⟩

theorem FewBits.neg (h : FewBits c) : FewBits (-c) := by rwa [FewBits, abs_neg]

theorem fewBits_natCast {n : ℕ} (h : n ≤ 2 ^ 53) : FewBits n := by
  rcases Nat.lt_or_eq_of_le h with hLess | rfl
  · exact ⟨n, 0, hLess, by norm_num, by simp⟩
  · exact ⟨1, 53, by norm_num, by norm_num, by norm_num⟩

theorem fewBits_value (x : Float) : FewBits (value x) := by
  cases hParts : parts x with
  | nan | infinite =>
    rw [value, hParts]
    exact fewBits_zero
  | finite negative m e =>
    have hCanonical := canonical_of_parts hParts
    refine ⟨m, e, hCanonical.mantissa, hCanonical.low, ?_⟩
    rw [value, hParts]
    exact abs_signed_mul negative m e

theorem fewBits_nearest (r : ℚ) : FewBits (nearest r) := by
  rw [FewBits, abs_nearest, nearest_of_nonneg (abs_nonneg r)]
  have hLow : -1074 ≤ unit |r| := le_max_right _ _
  rcases Nat.lt_or_eq_of_le (units_le |r|) with hLess | hEq
  · exact ⟨units |r|, unit |r|, hLess, hLow, rfl⟩
  · -- the carry makes a power of two
    refine ⟨2 ^ 52, unit |r| + 1, by norm_num, by omega, ?_⟩
    rw [hEq, zpow_add_one₀ (by norm_num)]
    push_cast
    ring

/-- No multiple of the unit is nearer. -/
theorem abs_nearest_sub_le_of_units (hr : 0 ≤ r) (k : ℕ) :
    |nearest r - r| ≤ |k * 2 ^ unit r - r| := by
  have hPow : (0 : ℚ) < 2 ^ unit r := by positivity
  have hScale : ∀ n : ℕ, |(n : ℚ) * 2 ^ unit r - r| = |n - r / 2 ^ unit r| * 2 ^ unit r := by
    intro n
    rw [← abs_of_pos hPow, ← abs_mul, abs_of_pos hPow, sub_mul, div_mul_cancel₀ _ hPow.ne']
  rw [nearest_of_nonneg hr, hScale, hScale]
  exact mul_le_mul_of_nonneg_right (abs_roundEven_sub_le (by positivity) k) hPow.le

theorem abs_nearest_sub_le_of_nonneg (hr : 0 ≤ r) {m : ℕ} {e : ℤ} (hm : m < 2 ^ 53)
    (he : -1074 ≤ e) : |nearest r - r| ≤ |m * 2 ^ e - r| := by
  rcases le_or_gt (unit r) e with hLe | hLess
  · -- a multiple of the unit
    obtain ⟨k, rfl⟩ := Int.le.dest hLe
    have hBest := abs_nearest_sub_le_of_units hr (m * 2 ^ k)
    rw [add_comm, two_pow_add, ← mul_assoc]
    exact_mod_cast hBest
  · rcases hr.eq_or_lt with rfl | hPos
    · have hBest := abs_nearest_sub_le_of_units (le_refl (0 : ℚ)) 0
      exact hBest.trans (by simp; positivity)
    · -- below the power of two that the number has passed, which is nearer
      have hPower := two_pow_unit_le hPos (by omega)
      have hMantissa : (m : ℚ) ≤ 2 ^ 53 := by exact_mod_cast hm.le
      have hSmall : (m : ℚ) * 2 ^ e ≤ 2 ^ 52 * 2 ^ unit r := by
        calc (m : ℚ) * 2 ^ e ≤ 2 ^ 53 * 2 ^ e := by gcongr
          _ = 2 ^ 52 * (2 * 2 ^ e) := by ring
          _ ≤ 2 ^ 52 * 2 ^ unit r := by gcongr; exact two_mul_two_pow_le hLess
      have hBest := abs_nearest_sub_le_of_units hr (2 ^ 52)
      rw [Nat.cast_pow, Nat.cast_ofNat] at hBest
      rw [abs_of_nonpos (by linarith : (2 : ℚ) ^ 52 * 2 ^ unit r - r ≤ 0)] at hBest
      rw [abs_of_nonpos (by linarith : (m : ℚ) * 2 ^ e - r ≤ 0)]
      linarith

/-- No number that a double stands for is nearer. -/
theorem abs_nearest_sub_le (hc : FewBits c) (r : ℚ) : |nearest r - r| ≤ |c - r| := by
  wlog hr : 0 ≤ r generalizing c r
  · have hFlip : ∀ a b : ℚ, |-a - -b| = |a - b| := fun a b => by rw [neg_sub_neg, abs_sub_comm]
    have hBest := this hc.neg (-r) (by linarith)
    rwa [nearest_neg, hFlip, hFlip] at hBest
  · obtain ⟨m, e, hm, he, hEq⟩ := hc
    have hBest := abs_nearest_sub_le_of_nonneg hr hm he
    rw [← hEq] at hBest
    have hSides := abs_abs_sub_abs_le_abs_sub c r
    rw [abs_of_nonneg hr] at hSides
    exact hBest.trans hSides

theorem nearest_mono {r' : ℚ} (h : r ≤ r') : nearest r ≤ nearest r' := by
  rcases h.eq_or_lt with rfl | hLess
  · exact le_refl _
  · exact le_of_nearer (abs_nearest_sub_le (fewBits_nearest r') r)
      (abs_nearest_sub_le (fewBits_nearest r) r') hLess

theorem nearest_eq_self (h : FewBits r) : nearest r = r := by
  have hBest := abs_nearest_sub_le h r
  rw [sub_self, abs_zero] at hBest
  exact sub_eq_zero.1 (abs_eq_zero.1 (le_antisymm hBest (abs_nonneg _)))

/-- Zero is a double, so no number is more than doubled. -/
theorem abs_nearest_le (r : ℚ) : |nearest r| ≤ 2 * |r| := by
  have hBest := abs_nearest_sub_le fewBits_zero r
  rw [zero_sub, abs_neg] at hBest
  have hTriangle := abs_add_le (nearest r - r) r
  rw [sub_add_cancel] at hTriangle
  linarith

theorem nearest_le (hr : 0 ≤ r) : nearest r ≤ 2 * r := by
  have hAbs := (le_abs_self _).trans (abs_nearest_le r)
  rwa [abs_of_nonneg hr] at hAbs

/-! ## The greatest double -/

/-- Half-way below a power of two is where the numbers begin that are rounded up to it. -/
theorem nearest_lt_two_pow_iff (hr : 0 ≤ r) {t : ℤ} (ht : -1074 ≤ t) :
    nearest r < 2 ^ 53 * 2 ^ t ↔ r < (2 ^ 53 - 1 / 2) * 2 ^ t := by
  have hPow : (0 : ℚ) < 2 ^ t := by positivity
  rcases hr.eq_or_lt with rfl | hPos
  · rw [nearest_zero]
    exact ⟨fun _ => by linarith, fun _ => by linarith⟩
  rw [nearest_of_nonneg hr]
  rcases lt_trichotomy (unit r) t with hLess | hEq | hMore
  · -- both are at most the power of two before
    have hDouble := two_mul_two_pow_le hLess
    have hNumber := le_two_pow_unit r
    have hUnits : (units r : ℚ) * 2 ^ unit r ≤ 2 ^ 53 * 2 ^ unit r := by
      gcongr
      exact_mod_cast units_le r
    exact ⟨fun _ => by linarith, fun _ => by linarith⟩
  · have hEven := le_roundEven_iff (x := r / 2 ^ unit r) (k := 2 ^ 53) (by norm_num) (by norm_num)
    rw [Nat.cast_pow, Nat.cast_ofNat] at hEven
    rw [hEq, mul_lt_mul_iff_left₀ hPow, ← div_lt_iff₀ hPow, ← not_le, ← not_le, ← hEq, ← hEven]
    exact_mod_cast Iff.rfl
  · -- both are at least that power of two
    have hDouble := two_mul_two_pow_le hMore
    have hNumber := two_pow_unit_le hPos (by omega)
    have hUnits : 2 ^ 52 * 2 ^ unit r ≤ (units r : ℚ) * 2 ^ unit r := by
      gcongr
      exact_mod_cast le_units hPos (by omega)
    exact ⟨fun _ => by linarith, fun _ => by linarith⟩

theorem two_pow_eq : (2 : ℚ) ^ 1024 = 2 ^ 53 * 2 ^ (971 : ℤ) := by
  rw [← two_pow_add, ← zpow_natCast]
  rfl

/-- Half-way between the greatest double and the power of two after it. -/
def limit : ℚ := 2 ^ 1024 - 2 ^ 970

/-- The nearest double is at most the greatest one exactly for the numbers below the limit. -/
theorem abs_nearest_lt_iff (r : ℚ) : |nearest r| < 2 ^ 1024 ↔ |r| < limit := by
  have hUnit : (2 : ℚ) ^ (971 : ℤ) = 2 ^ 970 * 2 := (zpow_natCast 2 971).trans (pow_succ 2 970)
  have hLimit : limit = (2 ^ 53 - 1 / 2) * 2 ^ (971 : ℤ) := by
    rw [limit, two_pow_eq, hUnit]
    generalize (2 : ℚ) ^ 970 = p
    ring
  rw [abs_nearest, two_pow_eq, hLimit, nearest_lt_two_pow_iff (abs_nonneg r) (by norm_num)]

end ItemComposition.Binary64
