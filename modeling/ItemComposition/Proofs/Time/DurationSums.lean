import ItemComposition.Proofs.Binary64.DecimalNumerals
import ItemComposition.Proofs.Binary64.Integers
import ItemComposition.Proofs.Time.DurationGrammar

/-!
# Sums of whole amounts

The amounts of a duration are added up as doubles: the number of an amount, its product with the
unit and the sum so far are each the double nearest to what they should be. Up to `2 ^ 53`
nanoseconds every whole number is a double and nothing is lost. Beyond that only the totals that 53
bits are enough for can come out, and the others are off.

## Key results

- `value_toFloat`: one amount
- `value_foldl`: the sum, step by step
- `readAll?_whole`: what a duration of whole amounts is read as
-/

namespace ItemComposition.Amount

open Binary64

variable {a : Amount} {amounts : List Amount} {x : Float}

/-! ## One amount -/

/-- The nanoseconds of a whole amount. -/
def wholeNanos (a : Amount) : ℕ := a.digits * a.unit.nanos

/-- The nanoseconds of a whole amount as they are counted: with one rounding for the number and one
for the product. -/
def nearestNanos (a : Amount) : ℚ := nearest (nearest a.digits * a.unit.nanos)

theorem nanos_pos (u : TimeUnit) : 0 < u.nanos := by cases u <;> decide

theorem nearestNanos_bounds (a : Amount) : 0 ≤ a.nearestNanos ∧ a.nearestNanos ≤ 4 * a.wholeNanos := by
  have hNumber := nearest_nonneg (Nat.cast_nonneg (α := ℚ) a.digits)
  have hTwice := nearest_le (Nat.cast_nonneg (α := ℚ) a.digits)
  have hUnit : (0 : ℚ) ≤ a.unit.nanos := Nat.cast_nonneg _
  have hProduct : 0 ≤ nearest a.digits * (a.unit.nanos : ℚ) := mul_nonneg hNumber hUnit
  refine ⟨nearest_nonneg hProduct, (nearest_le hProduct).trans ?_⟩
  rw [wholeNanos, Nat.cast_mul]
  nlinarith

/-- A whole amount as a double. -/
theorem value_toFloat (hPlaces : a.places = 0) (hSize : a.wholeNanos ≤ 2 ^ 70) :
    a.toFloat.isFinite = true ∧ value a.toFloat = a.nearestNanos := by
  -- the units are doubles themselves; the digits are rounded, and so is the product
  have hUnit : (ofInt a.unit.nanos).isFinite = true ∧ value (ofInt a.unit.nanos) = a.unit.nanos := by
    cases a.unit <;>
      exact ⟨isFinite_ofInt (by decide), (value_ofInt_of_le (by decide)).trans (by norm_cast)⟩
  have hNumber := rounded_ofScientific a.digits 0 true
  rw [if_pos rfl, pow_zero, div_one] at hNumber
  have hDigits : (a.digits : ℚ) ≤ 2 ^ 70 := by
    have hLe : a.digits ≤ a.wholeNanos := Nat.le_mul_of_pos_right _ (nanos_pos _)
    exact_mod_cast hLe.trans hSize
  have hRange : |(a.digits : ℚ)| < limit := by
    refine lt_limit_of_le ?_
    rw [abs_of_nonneg (Nat.cast_nonneg _)]
    exact hDigits.trans (by norm_num)
  have hProduct := rounded_mul (hNumber.isFinite_iff.2 hRange) hUnit.1
  rw [hNumber.value_eq hRange, hUnit.2] at hProduct
  have hBound : nearest a.digits * (a.unit.nanos : ℚ) ≤ 2 ^ 100 := by
    have hTwice := nearest_le (Nat.cast_nonneg (α := ℚ) a.digits)
    have hWhole : (a.digits : ℚ) * a.unit.nanos ≤ 2 ^ 70 := by exact_mod_cast hSize
    have hNonneg : (0 : ℚ) ≤ a.unit.nanos := Nat.cast_nonneg _
    nlinarith
  have hRange' : |nearest a.digits * (a.unit.nanos : ℚ)| < limit := by
    refine lt_limit_of_le ?_
    rwa [abs_of_nonneg (mul_nonneg (nearest_nonneg (Nat.cast_nonneg _)) (Nat.cast_nonneg _))]
  show (Float.ofScientific a.digits true a.places * ofInt a.unit.nanos).isFinite = true ∧
    value (Float.ofScientific a.digits true a.places * ofInt a.unit.nanos) = _
  rw [hPlaces]
  exact ⟨hProduct.isFinite_iff.2 hRange', hProduct.value_eq hRange'⟩

/-! ## The sum -/

/-- The nanoseconds of whole amounts. -/
def wholeTotal (amounts : List Amount) : ℕ := (amounts.map wholeNanos).sum

theorem wholeTotal_cons (a : Amount) (amounts : List Amount) :
    wholeTotal (a :: amounts) = a.wholeNanos + wholeTotal amounts := List.sum_cons

/-- The nanoseconds of whole amounts as they are added up: with one rounding for each sum. -/
def nearestTotal (amounts : List Amount) (total : ℚ) : ℚ :=
  amounts.foldl (fun total a => nearest (total + a.nearestNanos)) total

/-- A sum is off by no more than what is added to it. -/
theorem nearest_add_le {t p : ℚ} (ht : FewBits t) (hp : 0 ≤ p) : nearest (t + p) ≤ t + 2 * p := by
  have hBest := abs_nearest_sub_le ht (t + p)
  have hRest : |t - (t + p)| = p := by rw [sub_add_cancel_left, abs_neg, abs_of_nonneg hp]
  rw [hRest] at hBest
  linarith [(abs_le.1 hBest).2]

/-- The sum as a double, as long as it is far from the greatest double. -/
theorem value_foldl (hPlaces : ∀ a ∈ amounts, a.places = 0) (hx : x.isFinite = true)
    (hNonneg : 0 ≤ value x) (hSize : value x + 8 * wholeTotal amounts ≤ 2 ^ 70) :
    (amounts.foldl (fun total a => total + a.toFloat) x).isFinite = true ∧
      value (amounts.foldl (fun total a => total + a.toFloat) x) =
        nearestTotal amounts (value x) := by
  induction amounts generalizing x with
  | nil => exact ⟨hx, rfl⟩
  | cons a amounts ih =>
    have hRest : (0 : ℚ) ≤ wholeTotal amounts := Nat.cast_nonneg _
    rw [wholeTotal_cons, Nat.cast_add] at hSize
    have hWhole : (a.wholeNanos : ℚ) ≤ 2 ^ 70 := by linarith
    obtain ⟨hFinite, hAmount⟩ :=
      value_toFloat (hPlaces a List.mem_cons_self) (by exact_mod_cast hWhole)
    obtain ⟨hAmountNonneg, hAmountLe⟩ := a.nearestNanos_bounds
    -- the sum with the next amount
    have hSum := rounded_add hx hFinite
    rw [hAmount] at hSum
    have hRange : |value x + a.nearestNanos| < limit := by
      refine lt_limit_of_le ?_
      rw [abs_of_nonneg (by linarith)]
      linarith [show (2 : ℚ) ^ 70 ≤ 2 ^ 100 by norm_num]
    have hValue := hSum.value_eq hRange
    have hStep := nearest_add_le (fewBits_value x) hAmountNonneg
    have hNext := ih (fun b hb => hPlaces b (List.mem_cons_of_mem a hb)) (hSum.isFinite_iff.2 hRange)
      (by rw [hValue]; exact nearest_nonneg (by linarith)) (by rw [hValue]; linarith)
    rw [hValue] at hNext
    exact hNext

theorem nearestTotal_le (amounts : List Amount) {t : ℚ} (ht : FewBits t) (hNonneg : 0 ≤ t) :
    nearestTotal amounts t ≤ t + 8 * wholeTotal amounts := by
  induction amounts generalizing t with
  | nil => simp [nearestTotal, wholeTotal]
  | cons a amounts ih =>
    obtain ⟨hAmountNonneg, hAmountLe⟩ := a.nearestNanos_bounds
    have hStep := nearest_add_le ht hAmountNonneg
    have hNext := ih (fewBits_nearest (t + a.nearestNanos)) (nearest_nonneg (by linarith))
    rw [nearestTotal, List.foldl_cons, wholeTotal_cons]
    rw [nearestTotal] at hNext
    push_cast
    linarith

/-- The sum of whole amounts is a whole number. -/
theorem exists_nearestTotal (amounts : List Amount) (k : ℕ) :
    ∃ n : ℕ, nearestTotal amounts k = n := by
  induction amounts generalizing k with
  | nil => exact ⟨k, rfl⟩
  | cons a amounts ih =>
    obtain ⟨number, hNumber⟩ := exists_nearest_natCast a.digits
    obtain ⟨product, hProduct⟩ := exists_nearest_natCast (number * a.unit.nanos)
    obtain ⟨total, hTotal⟩ := exists_nearest_natCast (k + product)
    have hStep : nearest (k + a.nearestNanos) = total := by
      rw [nearestNanos, hNumber, ← Nat.cast_mul, hProduct, ← Nat.cast_add, hTotal]
    rw [nearestTotal, List.foldl_cons, hStep]
    exact ih total

/-- Up to `2 ^ 53` nothing is lost. -/
theorem nearestTotal_of_le (amounts : List Amount) {k : ℕ} (h : k + wholeTotal amounts ≤ 2 ^ 53) :
    nearestTotal amounts k = (k + wholeTotal amounts : ℕ) := by
  induction amounts generalizing k with
  | nil => rfl
  | cons a amounts ih =>
    rw [wholeTotal_cons, ← Nat.add_assoc] at h ⊢
    -- up to 2 ^ 53 every partial sum is a double, so no step rounds
    have hDigits : a.digits ≤ a.wholeNanos := Nat.le_mul_of_pos_right _ (nanos_pos _)
    have hNumber := nearest_eq_self (fewBits_natCast (n := a.digits) (by omega))
    have hProduct := nearest_eq_self (fewBits_natCast (n := a.wholeNanos) (by omega))
    have hSum := nearest_eq_self (fewBits_natCast (n := k + a.wholeNanos) (by omega))
    have hStep : nearest (k + a.nearestNanos) = (k + a.wholeNanos : ℕ) := by
      rw [nearestNanos, hNumber, ← Nat.cast_mul, ← wholeNanos, hProduct, ← Nat.cast_add, hSum]
    rw [nearestTotal, List.foldl_cons, hStep]
    exact ih h

/-- The sum of whole amounts is in nanoseconds already, so nothing is left to round. -/
theorem sum_eq {n : ℕ} (hPlaces : ∀ a ∈ amounts, a.places = 0) (hSize : wholeTotal amounts ≤ 2 ^ 64)
    (hTotal : nearestTotal amounts 0 = n) : sum amounts = n ∧ FewBits n := by
  have hZero : value 0 = 0 := by decide +kernel
  have hBound : value 0 + 8 * (wholeTotal amounts : ℚ) ≤ 2 ^ 70 := by
    have hCast : (wholeTotal amounts : ℚ) ≤ 2 ^ 64 := by exact_mod_cast hSize
    rw [hZero]
    linarith
  obtain ⟨hFinite, hValue⟩ := value_foldl (x := 0) hPlaces rfl hZero.ge hBound
  rw [hZero, hTotal] at hValue
  have hFew := fewBits_value (amounts.foldl (fun total a => total + a.toFloat) 0)
  rw [hValue] at hFew
  have hRound : round? (amounts.foldl (fun total a => total + a.toFloat) 0) = some (n : ℤ) :=
    round?_of_value hFinite (by rw [hValue]; norm_cast)
  refine ⟨?_, hFew⟩
  -- the sum is far from where it would be cut off
  have hLe := nearestTotal_le amounts fewBits_zero (le_refl 0)
  rw [hTotal] at hLe
  have hSmall : n ≤ 8 * 2 ^ 64 := by
    have hCast : n ≤ 8 * wholeTotal amounts := by
      rw [zero_add] at hLe
      exact_mod_cast hLe
    omega
  have hMax : maxNanos = 2 ^ 127 - 1 := rfl
  rw [sum, roundNanos, hRound, Option.getD_some, hMax]
  omega

/-! ## Durations -/

/-- What stands behind the sign of a duration without parts behind a point, and its amounts. -/
inductive Whole : List Char → List Amount → Prop
  | zero : Whole ['0'] []
  | amounts {cs : List Char} {amounts : List Amount} (some : amounts ≠ [])
    (spelled : Spelled cs amounts) (whole : ∀ a ∈ amounts, a.places = 0) : Whole cs amounts

/-- A duration of whole amounts is read as their sum with the sign, each step of the sum rounded to
the nearest double. Up to `2 ^ 53` nanoseconds this is the exact sum, and it never is if 53 bits are
not enough for that. -/
theorem readAll?_whole {text : String} {negative : Bool} {body : List Char}
    (sign : takeSign (Text.trim text).toList = (negative, body)) (whole : Whole body amounts)
    (fits : Word.isSigned 64 (signed negative (wholeTotal amounts)) = true) :
    ∃ n : ℕ, readAll? text = .ok (signed negative n) ∧ (n : ℚ) = nearestTotal amounts 0 ∧
      (wholeTotal amounts ≤ 2 ^ 53 → n = wholeTotal amounts) ∧
      (n = wholeTotal amounts → FewBits (wholeTotal amounts)) := by
  -- whatever fits into a word is below 2 ^ 64, and so are all that are added up
  have hSize : wholeTotal amounts ≤ 2 ^ 64 := by
    have hHalf : (Word.size (64 - 1) : Int) = 2 ^ 63 := rfl
    simp only [Word.isSigned, hHalf, Bool.and_eq_true, decide_eq_true_eq, signed] at fits
    split at fits <;> omega
  obtain ⟨n, hTotal⟩ := exists_nearestTotal amounts 0
  rw [Nat.cast_zero] at hTotal
  have hDenotes : Denotes body n ∧ FewBits n := by
    cases whole with
    | zero =>
      have hNone : (0 : ℚ) = n := hTotal
      obtain rfl : 0 = n := by exact_mod_cast hNone
      exact ⟨.zero, by exact_mod_cast fewBits_zero⟩
    | amounts some spelled whole =>
      obtain ⟨hSum, hFew⟩ := sum_eq whole hSize hTotal
      have hBody := Denotes.amounts some spelled
      rw [hSum] at hBody
      exact ⟨hBody, hFew⟩
  refine ⟨n, ?_, hTotal.symm, fun hLe => ?_, fun hEq => hEq ▸ hDenotes.2⟩
  · rw [readAll?_eq_ok_iff, duration_iff, sign]
    exact ⟨n, hDenotes.1, rfl⟩
  · have hExact := nearestTotal_of_le amounts (k := 0) (by omega)
    rw [Nat.cast_zero, hTotal, Nat.zero_add] at hExact
    exact_mod_cast hExact

/-- An hour and a half backwards. -/
theorem readAll?_whole_hour_and_half :
    takeSign (Text.trim "-1h30m").toList = (true, "1h30m".toList) ∧
      Whole "1h30m".toList [⟨1, 0, .hour⟩, ⟨30, 0, .minute⟩] ∧
      Word.isSigned 64 (signed true (wholeTotal [⟨1, 0, .hour⟩, ⟨30, 0, .minute⟩])) = true ∧
      readAll? "-1h30m" = .ok (-5400000000000) := by
  have hSign : takeSign (Text.trim "-1h30m").toList = (true, "1h30m".toList) := by decide +kernel
  have hOne : Number "1".toList 1 0 :=
    .whole (List.cons_ne_nil _ _) (List.forall_mem_singleton.2 rfl)
  have hThirty : Number "30".toList 30 0 :=
    .whole (List.cons_ne_nil _ _) (List.all_eq_true.1 (by decide +kernel))
  have hUnits : "h" ∈ TimeUnit.hour.signs ∧ "m" ∈ TimeUnit.minute.signs := by decide
  have hSpelled : Spelled "1h30m".toList [⟨1, 0, .hour⟩, ⟨30, 0, .minute⟩] :=
    .cons hOne hUnits.1 (.cons hThirty hUnits.2 .nil)
  have hWhole : Whole "1h30m".toList [⟨1, 0, .hour⟩, ⟨30, 0, .minute⟩] :=
    .amounts nofun hSpelled (by decide)
  have hFits : Word.isSigned 64
      (signed true (wholeTotal [⟨1, 0, .hour⟩, ⟨30, 0, .minute⟩])) = true := by decide +kernel
  obtain ⟨n, hRead, -, hExact, -⟩ := readAll?_whole hSign hWhole hFits
  rw [hExact (by decide)] at hRead
  exact ⟨hSign, hWhole, hFits, hRead⟩

/-- The first number of nanoseconds that is no double is read as the one before it. -/
theorem readAll?_off_by_one :
    takeSign (Text.trim "9007199254740993ns").toList = (false, "9007199254740993ns".toList) ∧
      Whole "9007199254740993ns".toList [⟨9007199254740993, 0, .nanosecond⟩] ∧
      wholeTotal [⟨9007199254740993, 0, .nanosecond⟩] = 9007199254740993 ∧
      Word.isSigned 64 9007199254740993 = true ∧
      readAll? "9007199254740993ns" = .ok 9007199254740992 := by
  have hNumber : Number "9007199254740993".toList 9007199254740993 0 :=
    .whole (List.cons_ne_nil _ _) (List.all_eq_true.1 (by decide +kernel))
  have hUnit : "ns" ∈ TimeUnit.nanosecond.signs := by decide
  have hSpelled : Spelled "9007199254740993ns".toList [⟨9007199254740993, 0, .nanosecond⟩] :=
    .cons hNumber hUnit .nil
  exact ⟨by decide +kernel, .amounts nofun hSpelled (by decide), by decide, by decide +kernel,
    by decide +kernel⟩

end ItemComposition.Amount
