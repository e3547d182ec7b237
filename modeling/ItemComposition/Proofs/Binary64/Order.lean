import ItemComposition.Proofs.Binary64.Values

/-!
# The order of doubles

Doubles that are numbers are in the order of their values, with the two infinities below and above
all others. What is no number is in no order to anything.

## Key results

- `Canonical.compare_eq`: magnitudes are in the order of their exponents, then of their mantissas
- `compare_unpack`: doubles are in the order of their values
- `lt_iff`, `le_iff`, `beq_iff`: the operators on doubles
-/

namespace ItemComposition.Binary64

open Float.Model Float.Model.UnpackedFloat

/-! ## Magnitudes -/

/-- Of two canonical magnitudes the one with the greater exponent is greater. -/
theorem Canonical.mul_lt_mul {m m' : Nat} {e e' : Int} (h : Canonical m e) (h' : Canonical m' e')
    (hLess : e < e') : (m : ℚ) * 2 ^ e < m' * 2 ^ e' := by
  have hLow := h.low
  have hLeading : 2 ^ 52 ≤ m' := h'.leading.resolve_left (by omega)
  have hPow : (0 : ℚ) < 2 ^ e := by positivity
  have hSmall : (m : ℚ) < 2 ^ 53 := by exact_mod_cast h.mantissa
  have hBig : (2 : ℚ) ^ 52 ≤ m' := by exact_mod_cast hLeading
  calc (m : ℚ) * 2 ^ e < 2 ^ 53 * 2 ^ e := mul_lt_mul_of_pos_right hSmall hPow
    _ = 2 ^ 52 * 2 ^ (e + 1) := by rw [zpow_add_one₀ (by norm_num)]; ring
    _ ≤ 2 ^ 52 * 2 ^ e' :=
      mul_le_mul_of_nonneg_left (zpow_le_zpow_right₀ (by norm_num) hLess) (by positivity)
    _ ≤ m' * 2 ^ e' := by gcongr

/-- Canonical magnitudes are in the order of their exponents, then of their mantissas. -/
theorem Canonical.compare_eq {m m' : Nat} {e e' : Int} (h : Canonical m e)
    (h' : Canonical m' e') :
    (compare e e').then (compare m m') = compare ((m : ℚ) * 2 ^ e) (m' * 2 ^ e') := by
  rcases lt_trichotomy e e' with hLess | rfl | hMore
  · rw [compare_lt_iff_lt.2 hLess, compare_lt_iff_lt.2 (h.mul_lt_mul h' hLess)]
    rfl
  · have hPow : (0 : ℚ) < 2 ^ e := by positivity
    have hMono : StrictMono fun k : Nat => (k : ℚ) * 2 ^ e :=
      fun _ _ hLess => mul_lt_mul_of_pos_right (Nat.cast_lt.2 hLess) hPow
    rw [compare_eq_iff_eq.2 rfl, ← cmp_eq_compare (_ * _), hMono.cmp_map_eq, cmp_eq_compare]
    rfl
  · rw [compare_gt_iff_gt.2 hMore, compare_gt_iff_gt.2 (h'.mul_lt_mul h hMore)]
    rfl

/-! ## Values -/

/-- The value of a sign and a magnitude. -/
theorem signed_mul (negative : Bool) (m : Nat) (e : Int) :
    (signed negative m : ℚ) * 2 ^ e = if negative then -(m * 2 ^ e : ℚ) else m * 2 ^ e := by
  cases negative <;> simp [signed]

theorem compare_neg_neg (a b : ℚ) : compare (-a) (-b) = (compare a b).swap := by
  have hAnti : StrictAnti fun a : ℚ => -a := fun _ _ hLess => neg_lt_neg hLess
  rw [← cmp_eq_compare (-a), hAnti.cmp_map_eq, cmp_eq_compare]
  exact Std.OrientedOrd.eq_swap

/-- Finite doubles are compared by their values. -/
theorem compare_of_parts {x y : Float} {n n' : Bool} {m m' : Nat} {e e' : Int}
    (hx : parts x = .finite n m e) (hy : parts y = .finite n' m' e') :
    x.toModel.unpack.compare y.toModel.unpack =
      some (compare (signed n m * 2 ^ e : ℚ) (signed n' m' * 2 ^ e')) := by
  have hMagnitude := (canonical_of_parts hx).compare_eq (canonical_of_parts hy)
  rw [parts_eq] at hx hy
  rw [signed_mul, signed_mul]
  cases hu : x.toModel.unpack with
  | notANumber | infinity => rw [hu] at hx; cases hx
  | zero s =>
    rw [hu] at hx
    cases hx
    cases hv : y.toModel.unpack with
    | notANumber | infinity => rw [hv] at hy; cases hy
    | zero s' =>
      -- the two zeros are one value, whatever their signs
      rw [hv] at hy
      cases hy
      exact congrArg some (compare_eq_iff_eq.2 (by simp)).symm
    | finite s' m' e' pos' =>
      rw [hv] at hy
      cases hy
      have hPos : (0 : ℚ) < m' * 2 ^ e' := by positivity
      cases s' with
      | negative => exact congrArg some (compare_gt_iff_gt.2 (by simpa using hPos)).symm
      | positive => exact congrArg some (compare_lt_iff_lt.2 (by simpa using hPos)).symm
  | finite s m e pos =>
    rw [hu] at hx
    cases hx
    have hPos : (0 : ℚ) < m * 2 ^ e := by positivity
    cases hv : y.toModel.unpack with
    | notANumber | infinity => rw [hv] at hy; cases hy
    | zero s' =>
      rw [hv] at hy
      cases hy
      cases s with
      | negative => exact congrArg some (compare_lt_iff_lt.2 (by simpa using hPos)).symm
      | positive => exact congrArg some (compare_gt_iff_gt.2 (by simpa using hPos)).symm
    | finite s' m' e' pos' =>
      rw [hv] at hy
      cases hy
      have hPos' : (0 : ℚ) < m' * 2 ^ e' := by positivity
      cases s with
      | negative =>
        cases s' with
        | negative =>
          -- below zero the order of the magnitudes is turned round
          exact congrArg some ((congrArg _ hMagnitude).trans (compare_neg_neg _ _).symm)
        | positive => exact congrArg some (compare_lt_iff_lt.2 ((neg_neg_of_pos hPos).trans hPos')).symm
      | positive =>
        cases s' with
        | negative => exact congrArg some (compare_gt_iff_gt.2 ((neg_neg_of_pos hPos').trans hPos)).symm
        | positive => exact congrArg some hMagnitude

/-- The exact value, or one of the infinities; none for what is no number. -/
def Parts.extended? : Parts → Option (WithBot (WithTop ℚ))
  | nan => none
  | infinite true => some ⊥
  | infinite false => some ⊤
  | finite negative m e => some ((signed negative m * 2 ^ e : ℚ) : WithTop ℚ)

/-- The exact value of a double, or one of the infinities; none for what is no number. -/
def extended? (x : Float) : Option (WithBot (WithTop ℚ)) := (parts x).extended?

theorem compare_coe (a b : ℚ) :
    compare ((a : WithTop ℚ) : WithBot (WithTop ℚ)) ((b : WithTop ℚ) : WithBot (WithTop ℚ)) =
      compare a b := by
  have hMono : StrictMono fun c : ℚ => ((c : WithTop ℚ) : WithBot (WithTop ℚ)) :=
    fun _ _ hLess => WithBot.coe_lt_coe.2 (WithTop.coe_lt_coe.2 hLess)
  rw [← cmp_eq_compare, hMono.cmp_map_eq, cmp_eq_compare]

theorem compare_of_isFinite {x y : Float} (hx : x.isFinite = true) (hy : y.isFinite = true) :
    x.toModel.unpack.compare y.toModel.unpack =
      (extended? x).bind fun a => (extended? y).map fun b => compare a b := by
  obtain ⟨n, m, e, hx⟩ := exists_parts_of_isFinite hx
  obtain ⟨n', m', e', hy⟩ := exists_parts_of_isFinite hy
  rw [compare_of_parts hx hy, extended?, extended?, hx, hy]
  exact congrArg some (compare_coe _ _).symm

theorem coe_lt_top (a : ℚ) : ((a : WithTop ℚ) : WithBot (WithTop ℚ)) < ⊤ :=
  WithBot.coe_lt_coe.2 (WithTop.coe_lt_top a)

/-- Doubles are compared by their values, infinities included. -/
theorem compare_unpack (x y : Float) : x.toModel.unpack.compare y.toModel.unpack =
    (extended? x).bind fun a => (extended? y).map fun b => compare a b := by
  have hFinite := @compare_of_isFinite x y
  rw [show x.isFinite = x.toModel.unpack.isFinite from rfl,
    show y.isFinite = y.toModel.unpack.isFinite from rfl] at hFinite
  unfold extended? at hFinite ⊢
  rw [parts_eq, parts_eq] at hFinite ⊢
  generalize x.toModel.unpack = u at hFinite ⊢
  generalize y.toModel.unpack = v at hFinite ⊢
  -- two finite numbers compare as their values do; every other pair has an infinity, which is an
  -- end of the order, or is not ordered at all
  cases u with
  | notANumber => rfl
  | infinity s =>
    cases v with
    | notANumber => cases s <;> rfl
    | infinity s' =>
      cases s with
      | negative =>
        cases s' with
        | negative => exact congrArg some (compare_eq_iff_eq.2 rfl).symm
        | positive => exact congrArg some (compare_lt_iff_lt.2 bot_lt_top).symm
      | positive =>
        cases s' with
        | negative => exact congrArg some (compare_gt_iff_gt.2 bot_lt_top).symm
        | positive => exact congrArg some (compare_eq_iff_eq.2 rfl).symm
    | zero | finite =>
      cases s with
      | negative => exact congrArg some (compare_lt_iff_lt.2 (WithBot.bot_lt_coe _)).symm
      | positive => exact congrArg some (compare_gt_iff_gt.2 (coe_lt_top _)).symm
  | zero | finite =>
    cases v with
    | notANumber => rfl
    | infinity s' =>
      cases s' with
      | negative => exact congrArg some (compare_gt_iff_gt.2 (WithBot.bot_lt_coe _)).symm
      | positive => exact congrArg some (compare_lt_iff_lt.2 (coe_lt_top _)).symm
    | zero | finite => exact hFinite rfl rfl

/-! ## The operators -/

variable {x y z : Float}

theorem extended?_of_isFinite (hx : x.isFinite = true) :
    extended? x = some ((value x : ℚ) : WithTop ℚ) := by
  obtain ⟨n, m, e, hParts⟩ := exists_parts_of_isFinite hx
  rw [extended?, value, hParts]
  rfl

theorem extended?_of_infinite (hx : parts x = .infinite false) : extended? x = some ⊤ := by
  rw [extended?, hx]
  rfl

theorem lt_iff : x < y ↔ ∃ a b, extended? x = some a ∧ extended? y = some b ∧ a < b := by
  have hLess : x < y ↔ x.toModel.unpack.compare y.toModel.unpack = some .lt :=
    decide_eq_true_iff.trans beq_iff_eq
  rw [hLess, compare_unpack]
  simp [Option.bind_eq_some_iff, compare_lt_iff_lt]

theorem le_iff : x ≤ y ↔ ∃ a b, extended? x = some a ∧ extended? y = some b ∧ a ≤ b := by
  have hOrder : x ≤ y ↔ (x.toModel.unpack.compare y.toModel.unpack).any (·.isLE) = true :=
    decide_eq_true_iff
  rw [hOrder, compare_unpack]
  cases extended? x with
  | none => simp
  | some a =>
    cases extended? y with
    | none => simp
    | some b => simp [Std.LawfulBCmp.isLE_iff_le]

theorem trans_le (h : x ≤ y) (h' : y ≤ z) : x ≤ z := by
  obtain ⟨a, b, ha, hb, hab⟩ := le_iff.1 h
  obtain ⟨b', d, hb', hd, hbd⟩ := le_iff.1 h'
  rw [hb] at hb'
  cases hb'
  exact le_iff.2 ⟨a, d, ha, hd, hab.trans hbd⟩

theorem le_iff_value (hx : x.isFinite = true) (hy : y.isFinite = true) :
    x ≤ y ↔ value x ≤ value y := by
  rw [le_iff, extended?_of_isFinite hx, extended?_of_isFinite hy]
  simp

end ItemComposition.Binary64
