import ItemComposition.Config.Settings
import ItemComposition.Proofs.Binary64.DecimalNumerals
import ItemComposition.Proofs.Binary64.Powers

/-!
# Pauses that grow

The pause after an attempt is a product of doubles that is read as seconds. It is rounded to
nanoseconds, counts as the longest pause where it is none, and is at most the longest pause. Each of
these steps keeps the order of what it is given, so the pauses do not fall from one attempt to the
next, whatever becomes too great on the way.

## Key results

- `roundToNanos_eq`: whole nanoseconds are the nearest ones
- `pause_mul_le_pause_mul`: a pause does not fall when its growth does not
- `Settings.pauses_grow`: the pauses of settings that are valid
-/

namespace ItemComposition

open Binary64

namespace RetryPolicy

variable {x y : Float}

/-! ## Rounding to nanoseconds -/

theorem roundEven_natCast (n : ℕ) : roundEven n = n :=
  Nat.le_antisymm (roundEven_le (le_refl _)) (le_roundEven (le_refl _))

/-- A quotient is rounded by comparing twice its remainder to the divisor. -/
theorem roundEven_div (n : ℕ) {d : ℕ} (hd : 0 < d) :
    roundEven (n / d) =
      if d < 2 * (n % d) || (2 * (n % d) = d && n / d % 2 = 1) then n / d + 1 else n / d := by
  have hPos : (0 : ℚ) < d := by exact_mod_cast hd
  have hRest : (n / d : ℚ) - (n / d : ℕ) = (n % d : ℕ) / d := by
    have hWhole : (n : ℚ) = (n / d : ℕ) * d + (n % d : ℕ) := by
      exact_mod_cast (Nat.div_add_mod' n d).symm
    rw [sub_eq_iff_eq_add, div_add' _ _ _ hPos.ne', div_left_inj' hPos.ne']
    linarith
  rw [roundEven, Nat.floor_div_eq_div, hRest, compare_div_half _ hd]
  rcases lt_trichotomy (2 * (n % d)) d with hLess | hEq | hMore
  · rw [compare_lt_iff_lt.2 hLess]
    simp [hLess.ne, hLess.not_gt]
  · -- a tie goes to the even neighbour
    rw [compare_eq_iff_eq.2 hEq]
    rcases Nat.mod_two_eq_zero_or_one (n / d) with hEven | hOdd
    · simp [hEq, hEven]
    · simp [hEq, hOdd]
  · rw [compare_gt_iff_gt.2 hMore]
    simp [hMore]

/-- Whole nanoseconds are the ones nearest to the seconds that a mantissa and an exponent stand
for. -/
theorem roundToNanos_eq (m : ℕ) (e : ℤ) :
    roundToNanos m e = roundEven (m * 2 ^ e * TimeUnit.second.nanos) := by
  unfold roundToNanos
  generalize TimeUnit.second.nanos = nanos
  cases e with
  -- an exponent that is not negative is exact, one that is negative is a division to be rounded
  | ofNat e =>
    have hWhole : (m : ℚ) * 2 ^ (Int.ofNat e) * nanos = (m <<< e * nanos : ℕ) := by
      rw [Int.ofNat_eq_natCast, zpow_natCast, Nat.shiftLeft_eq]
      push_cast
      ring
    rw [hWhole, roundEven_natCast]
  | negSucc e =>
    have hQuotient : (m : ℚ) * 2 ^ (Int.negSucc e) * nanos =
        (m * nanos : ℕ) / (Nat.pow 2 (e + 1) : ℕ) := by
      rw [zpow_negSucc, Nat.pow_eq]
      push_cast
      ring
    rw [hQuotient]
    exact (roundEven_div (m * nanos) (Nat.pow_pos two_pos)).symm

/-- A number of seconds from zero up is told in nanoseconds if the seconds fit into a word. -/
theorem nanosOfSeconds?_eq (hx : x.isFinite = true) (hNonneg : 0 ≤ value x) :
    nanosOfSeconds? x =
      if roundEven (value x * TimeUnit.second.nanos) < Word.size 64 * TimeUnit.second.nanos then
        some (roundEven (value x * TimeUnit.second.nanos)) else none := by
  obtain ⟨negative, m, e, hParts⟩ := exists_parts_of_isFinite hx
  have hMagnitude : (m : ℚ) * 2 ^ e = value x := by
    rw [← abs_of_nonneg hNonneg, value, hParts]
    exact (abs_signed_mul negative m e).symm
  -- below zero there is only the zero with a sign
  have hSign : (negative && decide (m ≠ 0)) = false := by
    cases negative with
    | false => rfl
    | true =>
      rw [value, hParts] at hNonneg
      simp only [signed_mul, if_true] at hNonneg
      have hPow : (0 : ℚ) < 2 ^ e := by positivity
      have hZero : (m : ℚ) = 0 := by
        have hNat : (0 : ℚ) ≤ m := Nat.cast_nonneg m
        nlinarith
      have hZero' : m = 0 := by exact_mod_cast hZero
      simp [hZero']
  unfold nanosOfSeconds?
  rw [hParts]
  simp only [hSign, Bool.false_eq_true, if_false, roundToNanos_eq, hMagnitude]

/-! ## Pauses -/

variable (p : RetryPolicy)

/-- The pause for a number of seconds, which counts as the longest if it is no duration. -/
def pause (seconds : Float) : ℕ := min ((nanosOfSeconds? seconds).getD p.maxBackoff) p.maxBackoff

theorem pause_le (x : Float) : p.pause x ≤ p.maxBackoff := Nat.min_le_right _ _

theorem pause_of_none (h : nanosOfSeconds? x = none) : p.pause x = p.maxBackoff := by
  rw [pause, h, Option.getD_none, Nat.min_self]

theorem pause_of_infinite (h : parts x = .infinite false) : p.pause x = p.maxBackoff :=
  p.pause_of_none (by rw [nanosOfSeconds?, h])

theorem pause_of_nan (h : parts x = .nan) : p.pause x = p.maxBackoff :=
  p.pause_of_none (by rw [nanosOfSeconds?, h])

/-- More seconds do not make a shorter pause. -/
theorem pause_le_pause (hx : AtLeast 0 x) (h : x ≤ y) : p.pause x ≤ p.pause y := by
  cases hx.trans h with
  | infinite parts_eq =>
    rw [p.pause_of_infinite parts_eq]
    exact p.pause_le x
  -- as the greater pause is finite, so is the smaller factor
  | finite hy hyNonneg =>
    have hFinite := hx.isFinite_of_le h hy
    have hNonneg := hx.le_value_of_isFinite hFinite
    have hNanos : (0 : ℚ) ≤ TimeUnit.second.nanos := Nat.cast_nonneg _
    have hRounded : roundEven (value x * TimeUnit.second.nanos) ≤
        roundEven (value y * TimeUnit.second.nanos) :=
      roundEven_mono (mul_nonneg hNonneg hNanos)
        (mul_le_mul_of_nonneg_right ((le_iff_value hFinite hy).1 h) hNanos)
    by_cases hFits : roundEven (value y * TimeUnit.second.nanos) <
        Word.size 64 * TimeUnit.second.nanos
    · rw [pause, pause, nanosOfSeconds?_eq hFinite hNonneg, nanosOfSeconds?_eq hy hyNonneg,
        if_pos hFits, if_pos (Nat.lt_of_le_of_lt hRounded hFits)]
      exact min_le_min_right _ hRounded
    · -- too long a pause is the longest one, which bounds every other
      have hNone : nanosOfSeconds? y = none := by rw [nanosOfSeconds?_eq hy hyNonneg, if_neg hFits]
      rw [p.pause_of_none hNone]
      exact p.pause_le x

/-- A pause does not get shorter when its growth does not get less: neither where the product gets
infinite or too great for a duration, nor where zero seconds meet an infinite growth. -/
theorem pause_mul_le_pause_mul {seconds : Float} (hs : AtLeast 0 seconds) (hx : AtLeast 0 x)
    (h : x ≤ y) : p.pause (seconds * x) ≤ p.pause (seconds * y) := by
  rcases hs.mul_cases (hx.trans h) with ⟨hFinite, hy⟩ | hInfinite | ⟨hNan, -⟩
  · have hxFinite := hx.isFinite_of_le h hy
    have hsNonneg := hs.le_value_of_isFinite hFinite
    have hNonneg : 0 ≤ value seconds * value x :=
      mul_nonneg hsNonneg (hx.le_value_of_isFinite hxFinite)
    have hProduct : value seconds * value x ≤ value seconds * value y :=
      mul_le_mul_of_nonneg_left ((le_iff_value hxFinite hy).1 h) hsNonneg
    have hRounded := rounded_mul hFinite hxFinite
    exact p.pause_le_pause (hRounded.atLeast (le_refl 0) fewBits_zero hNonneg)
      (hRounded.le (rounded_mul hFinite hy) hNonneg hProduct)
  · -- the longer product is infinite, or "not a number": both give the longest pause
    rw [p.pause_of_infinite hInfinite]
    exact p.pause_le _
  · rw [p.pause_of_nan hNan]
    exact p.pause_le _

/-! ## The pauses of a policy -/

/-- Seconds and nanoseconds are not negative together. -/
theorem atLeast_seconds (nanos : ℕ) : AtLeast 0 (seconds nanos) := by
  have hNumber : ∀ n : ℕ, Rounded n (ofInt n) := by
    intro n
    have hRounded := rounded_ofScientific n 0 false
    rw [if_neg (by simp), pow_zero, mul_one] at hRounded
    exact hRounded
  have hBillion : (1e9 : Float).isFinite = true ∧ value 1e9 = 10 ^ 9 := by
    have hRounded : Rounded _ (1e9 : Float) := rounded_ofScientific 1 9 false
    rw [if_neg (by simp), Nat.cast_one, one_mul] at hRounded
    refine hRounded.exact ?_ (lt_limit_of_le (by norm_num))
    exact_mod_cast fewBits_natCast (n := 10 ^ 9) (by norm_num)
  -- whole seconds and the rest of a second are added, and neither is negative
  obtain ⟨whole, hWhole⟩ : ∃ n, n = nanos / TimeUnit.second.nanos := ⟨_, rfl⟩
  obtain ⟨rest, hRest⟩ : ∃ n, n = nanos % TimeUnit.second.nanos := ⟨_, rfl⟩
  have hSmall : rest < 10 ^ 9 := hRest ▸ Nat.mod_lt nanos (by decide)
  have hParts := (hNumber rest).atLeast (le_refl 0) fewBits_zero (Nat.cast_nonneg rest)
  have hPartsFinite : (ofInt rest).isFinite = true := by
    refine (hNumber rest).isFinite_iff.2 (lt_limit_of_le ?_)
    rw [abs_of_nonneg (Nat.cast_nonneg rest)]
    exact le_trans (by exact_mod_cast hSmall.le) (by norm_num : (10 : ℚ) ^ 9 ≤ 2 ^ 100)
  have hQuotient := rounded_div hPartsFinite hBillion.1 (by rw [hBillion.2]; norm_num)
  have hQuotientNonneg : 0 ≤ value (ofInt rest) / value 1e9 :=
    div_nonneg (hParts.le_value_of_isFinite hPartsFinite) (by rw [hBillion.2]; norm_num)
  rw [seconds, ← hWhole, ← hRest]
  exact ((hNumber whole).atLeast (le_refl 0) fewBits_zero (Nat.cast_nonneg whole)).add
    (hQuotient.atLeast (le_refl 0) fewBits_zero hQuotientNonneg)

theorem backoff_le_backoff_succ (hp : 1 ≤ p.multiplier) (attempt : ℕ) :
    p.backoff attempt ≤ p.backoff (attempt + 1) := by
  -- the exponent grows by one, unless it is zero still or as great as it gets
  have hExponent : min (attempt + 1 - 1) maxExponent = min (attempt - 1) maxExponent ∨
      min (attempt + 1 - 1) maxExponent = min (attempt - 1) maxExponent + 1 := by
    omega
  have hPower : AtLeast 0 (power p.multiplier (min (attempt - 1) maxExponent)) :=
    (atLeast_power hp _).mono zero_le_one
  show p.pause (seconds p.initialBackoff * power p.multiplier (min (attempt - 1) maxExponent)) ≤
    p.pause (seconds p.initialBackoff * power p.multiplier (min (attempt + 1 - 1) maxExponent))
  refine p.pause_mul_le_pause_mul (atLeast_seconds _) hPower ?_
  rcases hExponent with hSame | hNext
  · rw [hSame]
    exact hPower.refl_le
  · rw [hNext]
    exact power_le_power_succ hp _

/-- The pauses of the policy that is used where none is configured, in seconds. -/
example : [1, 2, 3, 4, 5, 60].map RetryPolicy.standard.backoff =
    [1, 2, 4, 8, 10, 10].map (· * TimeUnit.second.nanos) := by decide +kernel

theorem backoff_le (attempt : ℕ) : p.backoff attempt ≤ p.maxBackoff := Nat.min_le_right _ _

end RetryPolicy

namespace Settings

variable {s : Settings}

/-- The growth of valid settings is a number from one up or infinite. -/
theorem one_le_multiplier (valid : s.validate = .ok ()) : 1 ≤ s.retry.multiplier := by
  by_contra hSmall
  have hRefused : (!decide (1 ≤ s.retry.multiplier)) = true := by simpa using hSmall
  unfold validate at valid
  rw [if_pos hRefused] at valid
  split at valid
  · cases valid
  split at valid
  · cases valid
  split at valid
  · cases valid
  · cases valid

/-- With valid settings no pause is shorter than the one before, and none is longer than the longest,
after however many attempts. -/
theorem pauses_grow (valid : s.validate = .ok ()) (attempt : ℕ) :
    s.retry.policy.backoff attempt ≤ s.retry.policy.backoff (attempt + 1) ∧
      s.retry.policy.backoff (attempt + 1) ≤ s.retry.policy.maxBackoff :=
  ⟨s.retry.policy.backoff_le_backoff_succ (one_le_multiplier valid) attempt,
    s.retry.policy.backoff_le (attempt + 1)⟩

/-- An infinite growth of no pause at all: zero, and from then on the longest pause. -/
theorem pauses_grow_infinite :
    let s : Settings := ⟨.standard, "templates", ⟨3, 0, 10000, 1 / 0, []⟩, 5000⟩
    s.validate = .ok () ∧ s.retry.policy.backoff 1 = 0 ∧
      s.retry.policy.backoff 2 = s.retry.policy.maxBackoff ∧
      s.retry.policy.backoff 1 ≤ s.retry.policy.backoff 2 ∧
      s.retry.policy.backoff 2 ≤ s.retry.policy.maxBackoff := by
  intro s
  have hMultiplier : (1 : Float) ≤ s.retry.multiplier := by decide +kernel
  have hValid : s.validate = .ok () := by
    rw [validate, if_neg (by decide), if_neg (by decide), if_neg (by decide),
      if_neg (by simpa using hMultiplier), if_neg (by decide)]
    rfl
  exact ⟨hValid, by decide +kernel, by decide +kernel, pauses_grow hValid 1⟩

end Settings

end ItemComposition
