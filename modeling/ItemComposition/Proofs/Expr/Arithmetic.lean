import ItemComposition.Proofs.Binary64.DecimalNumerals
import ItemComposition.Proofs.Binary64.Integers
import ItemComposition.Proofs.Binary64.Remainders
import ItemComposition.Proofs.Expr.Equality
import ItemComposition.Proofs.Expr.Printing
import ItemComposition.Proofs.Expr.Spans
import ItemComposition.Proofs.Json.Equality
import ItemComposition.Proofs.Time.Instants

/-!
# Arithmetic

Numerals and arithmetic operators give the double nearest to the exact result. A result for which
this would be greater than every double is no number, and it is no error either: it becomes null.
Only the opposite of a number and a remainder are never beyond the range. A division by zero is an
error.

## Key results

- `Json.becomes_ofFloat`: what becomes of a rounded result
- `outcome_combine`: operands that are numbers or timestamps
- `arithmetic_outcomes`: numerals, the prefix operator and the infix operators
-/

namespace ItemComposition

open Binary64

/-! ## Results -/

namespace Json

/-- What becomes of a result that is `r` exactly: the nearest double, or null if that is greater than
every double. -/
inductive Becomes (r : ℚ) : Json → Prop
  | number {n : Number} (inRange : |r| < limit) (legal : n.Legal)
      (near : Binary64.value n.toFloat = nearest r) : Becomes r (.num n)
  | null (beyond : limit ≤ |r|) : Becomes r .null

/-- A finite double is a JSON number of its value. -/
theorem exists_ofFloat_eq_num {z : Float} (h : z.isFinite = true) :
    ∃ n : Number, ofFloat z = .num n ∧ n.Legal ∧ Binary64.value n.toFloat = Binary64.value z := by
  unfold ofFloat
  split
  · -- a whole result is kept as an integer where it has 64 bits, and as the double it is where not
    next n hInt =>
    split
    · next hRange =>
      simp only [Bool.and_eq_true, decide_eq_true_eq] at hRange
      have hFits : Number.fits n = true := by
        have hHalf : (Word.size (64 - 1) : Int) = 2 ^ 63 := rfl
        simp only [Word.least, Word.greatest, hHalf] at hRange
        simp only [Number.fits, Word.isSigned, hHalf, Bool.or_eq_true, Bool.and_eq_true,
          decide_eq_true_eq]
        omega
      have hValue := (value_of_toInt? hInt).2
      refine ⟨.int n, rfl, .int hFits, ?_⟩
      rw [hValue]
      exact value_ofInt_of_value (Number.natAbs_lt_of_fits hFits) h hValue.symm
    · exact ⟨.float z, rfl, .float h, rfl⟩
  · rw [if_pos h]
    exact ⟨.float z, rfl, .float h, rfl⟩

theorem becomes_ofFloat {r : ℚ} {z : Float} (h : Rounded r z) : Becomes r (ofFloat z) := by
  cases h with
  | finite inRange isFinite value_eq =>
    obtain ⟨n, hEq, hLegal, hValue⟩ := exists_ofFloat_eq_num isFinite
    rw [hEq]
    exact .number inRange hLegal (hValue.trans value_eq)
  | overflow beyond parts_eq =>
    -- beyond the doubles the result is infinite, so neither a whole number nor a finite one
    have hNull : ofFloat z = .null := by
      have hNotFinite : z.isFinite = false := by
        rw [← Bool.not_eq_true]
        intro hFinite
        obtain ⟨n, m, e, hParts⟩ := exists_parts_of_isFinite hFinite
        rw [parts_eq] at hParts
        cases hParts
      have hNotWhole : toInt? z = none := by
        cases hInt : toInt? z with
        | none => rfl
        | some n => rw [(value_of_toInt? hInt).1] at hNotFinite; cases hNotFinite
      rw [ofFloat, hNotWhole, hNotFinite]
      rfl
    rw [hNull]
    exact .null beyond

/-! ## Operands -/

/-- An operand of arithmetic, and the double that counts for it. -/
inductive Operand : Json → Float → Prop
  | number {n : Number} (legal : n.Legal) : Operand (.num n) n.toFloat
  | timestamp {s : String} {t : Instant} (read : Instant.read? s = some t) :
      Operand (.str s) (ofInt t.seconds + ofInt t.millis / 1000.0)

variable {a b : Json} {x y : Float}

theorem Operand.toSeconds?_eq (h : Operand a x) : a.toSeconds? = some x := by
  cases h with
  | number legal => rfl
  | timestamp read => rw [Json.toSeconds?, read]

theorem value_thousand : (1000.0 : Float).isFinite = true ∧ Binary64.value 1000.0 = 1000 := by
  have hRounded : Rounded 1000 1000.0 := by
    have hNumeral := rounded_ofScientific 10000 1 true
    norm_num at hNumeral
    exact hNumeral
  have hFew : FewBits 1000 := by exact_mod_cast fewBits_natCast (n := 1000) (by norm_num)
  exact hRounded.exact hFew (lt_limit_of_le (by norm_num))

/-- The seconds of a timestamp are far from the greatest double. -/
theorem isFinite_seconds {s : String} {t : Instant} (h : Instant.read? s = some t) :
    (ofInt t.seconds + ofInt t.millis / 1000.0).isFinite = true := by
  obtain ⟨hSeconds, hNanos⟩ := Instant.read?_range h
  have hMillis : t.millis ≤ 2000 := by
    have hSecond : TimeUnit.second.nanos = 1000000000 := rfl
    have hMillisecond : TimeUnit.millisecond.nanos = 1000000 := rfl
    unfold Instant.millis
    rw [hMillisecond]
    omega
  have hWhole : Binary64.value (ofInt t.seconds) = t.seconds := value_ofInt_of_le (by omega)
  have hPart : Binary64.value (ofInt t.millis) = t.millis := value_ofInt_of_le (by simp; omega)
  have hFiniteWhole : (ofInt t.seconds).isFinite = true := isFinite_ofInt (by omega)
  have hFinitePart : (ofInt t.millis).isFinite = true := isFinite_ofInt (by simp; omega)
  obtain ⟨hThousand, hThousandValue⟩ := value_thousand
  -- the part of a second
  have hQuotient := rounded_div hFinitePart hThousand (by rw [hThousandValue]; norm_num)
  rw [hPart, hThousandValue] at hQuotient
  have hSmall : |(t.millis : ℚ) / 1000| ≤ 2 := by
    have hCast : (t.millis : ℚ) ≤ 2000 := by exact_mod_cast hMillis
    rw [abs_of_nonneg (by positivity), div_le_iff₀ (by norm_num)]
    linarith
  have hRange : |(t.millis : ℚ) / 1000| < limit := lt_limit_of_le (hSmall.trans (by norm_num))
  have hFiniteQuotient := hQuotient.isFinite_iff.2 hRange
  -- the whole seconds with it
  have hSum := rounded_add hFiniteWhole hFiniteQuotient
  rw [hSum.isFinite_iff, hWhole, hQuotient.value_eq hRange]
  refine lt_limit_of_le ((abs_add_le _ _).trans ?_)
  have hNear := abs_nearest_le ((t.millis : ℚ) / 1000)
  have hBound : |(t.seconds : ℚ)| ≤ 2 ^ 40 := by
    rw [← Int.cast_abs, ← Nat.cast_natAbs]
    exact_mod_cast hSeconds
  linarith

theorem Operand.isFinite (h : Operand a x) : x.isFinite = true := by
  cases h with
  | number legal => exact Number.isFinite_toFloat legal
  | timestamp read => exact isFinite_seconds read

end Json

namespace Expr

open Json

/-! ## Infix operators -/

/-- The exact result of an operator. -/
def exact (op : BinaryOp) (a b : ℚ) : ℚ :=
  match op with
  | .add => a + b
  | .sub => a - b
  | .mul => a * b
  | _ => a / b

/-- What comes of an arithmetic operator for the exact operands: an error for a division by zero, a
number for a remainder, and the rounded result of another operator. -/
inductive Outcome (op : BinaryOp) (a b : ℚ) : Except ExprError Json → Prop
  | undefined (division : op = .div ∨ op = .rem) (zero : b = 0) :
      Outcome op a b (.error .divisionByZero)
  | remainder {n : Number} {q : ℕ} (isRem : op = .rem) (nonzero : b ≠ 0) (legal : n.Legal)
      (multiple : |a| = q * |b| + |Binary64.value n.toFloat|)
      (less : |Binary64.value n.toFloat| < |b|) (sameSign : 0 ≤ a * Binary64.value n.toFloat) :
      Outcome op a b (.ok (.num n))
  | rounded {v : Json} (isRounded : op = .add ∨ op = .sub ∨ op = .mul ∨ op = .div ∧ b ≠ 0)
      (becomes : v.Becomes (exact op a b)) : Outcome op a b (.ok v)

/-- The operators of arithmetic. -/
def arithmeticOps : List BinaryOp := [.add, .sub, .mul, .div, .rem]

variable {a b : Json} {x y : Float} {op : BinaryOp}

theorem beq_zero_iff (hy : y.isFinite = true) : (y == 0) = true ↔ Binary64.value y = 0 := by
  have hZero : Binary64.value 0 = 0 := by decide +kernel
  rw [beq_iff_value hy rfl, hZero]

theorem outcome_combine (hOp : op ∈ arithmeticOps) (ha : Operand a x) (hb : Operand b y) :
    Outcome op (Binary64.value x) (Binary64.value y) (combine op a b) := by
  have hx := ha.isFinite
  have hy := hb.isFinite
  simp only [combine, ha.toSeconds?_eq, hb.toSeconds?_eq]
  simp only [arithmeticOps, List.mem_cons, List.not_mem_nil, or_false] at hOp
  rcases hOp with rfl | rfl | rfl | rfl | rfl
  · exact .rounded (.inl rfl) (becomes_ofFloat (rounded_add hx hy))
  · exact .rounded (.inr (.inl rfl)) (becomes_ofFloat (rounded_sub hx hy))
  · exact .rounded (.inr (.inr (.inl rfl))) (becomes_ofFloat (rounded_mul hx hy))
  · -- a divisor that is zero, of either sign, is told apart before the division
    by_cases hZero : (y == 0) = true
    · simp only [arithmetic, hZero, if_true]
      exact .undefined (.inl rfl) ((beq_zero_iff hy).1 hZero)
    · have hNonzero : Binary64.value y ≠ 0 := fun h => hZero ((beq_zero_iff hy).2 h)
      simp only [arithmetic, hZero, Bool.false_eq_true, if_false]
      exact .rounded (.inr (.inr (.inr ⟨rfl, hNonzero⟩)))
        (becomes_ofFloat (rounded_div hx hy hNonzero))
  · by_cases hZero : (y == 0) = true
    · simp only [arithmetic, hZero, if_true]
      exact .undefined (.inr rfl) ((beq_zero_iff hy).1 hZero)
    · have hNonzero : Binary64.value y ≠ 0 := fun h => hZero ((beq_zero_iff hy).2 h)
      obtain ⟨hFinite, q, hMultiple, hLess, hSign⟩ := exists_quotient_remainder hx hy hNonzero
      obtain ⟨n, hEq, hLegal, hValue⟩ := exists_ofFloat_eq_num hFinite
      -- the remainder is said of the number that comes out, and that has the value of the double
      rw [← hValue] at hMultiple hLess hSign
      simp only [arithmetic, hZero, Bool.false_eq_true, if_false, hEq]
      exact .remainder rfl hNonzero hLegal hMultiple hLess hSign

/-- Two texts are put together by a plus; a number on one side makes it a sum. -/
theorem applyBinary_eq_combine (hOp : op ∈ arithmeticOps)
    (hNumber : a.kind = .number ∨ b.kind = .number) : applyBinary op a b = combine op a b := by
  simp only [arithmeticOps, List.mem_cons, List.not_mem_nil, or_false] at hOp
  rcases hOp with rfl | rfl | rfl | rfl | rfl
  · -- only to add has a meaning for texts, and one of the two is a number
    cases a with
    | str s =>
      cases b with
      | str t => rcases hNumber with h | h <;> cases h
      | _ => rfl
    | _ => rfl
  · rfl
  · rfl
  · rfl
  · rfl

variable {env : Json} {l r : Expr}

theorem eval_binary_arithmetic (hOp : op ∈ arithmeticOps) (hl : l.eval env = .ok a)
    (hr : r.eval env = .ok b) : (Expr.binary op l r).eval env = applyBinary op a b := by
  simp only [arithmeticOps, List.mem_cons, List.not_mem_nil, or_false] at hOp
  rcases hOp with rfl | rfl | rfl | rfl | rfl <;> simp only [eval, hl, hr]

/-! ## Numerals -/

/-- A numeral with digits before and behind the point, or without a point if there are none behind
it. -/
def numeral (digits places : List Char) : String :=
  String.ofList (if places = [] then digits else digits ++ '.' :: places)

theorem rounded_numberValue (digits places : List Char) :
    Rounded (Nat.ofDigitChars 10 (digits ++ places) 0 / 10 ^ places.length)
      (Token.numberValue digits places) := by
  have hRounded := rounded_ofScientific (Nat.ofDigitChars 10 (digits ++ places) 0) places.length true
  rw [if_pos rfl, Nat.ofDigitChars_eq_foldl] at hRounded
  rw [Nat.ofDigitChars_eq_foldl, Token.numberValue]
  simpa only [Nat.mul_comm 10] using hRounded

/-- A numeral is an expression by itself. -/
theorem parse_numeral {digits places : List Char} (hSome : digits ≠ [])
    (hDigits : digits.all Char.isDigit = true) (hPlaces : places.all Char.isDigit = true) :
    Expr.parse (numeral digits places) =
      .ok (.literal (Json.ofFloat (Token.numberValue digits places))) := by
  -- with no digits behind the point there is no point to be read
  have hReads : Lexeme.ofText (numeral digits places) =
      .ok [⟨.number (Token.numberValue digits places), 0⟩] := by
    unfold numeral
    split
    · next hNone =>
      rw [hNone]
      exact Lexeme.ofText_of_reads (.whole hSome hDigits)
    · next hBehind => exact Lexeme.ofText_of_reads (.decimal hSome hDigits hBehind hPlaces)
  have hDerives := (StandsFor.of_primary (.number (x := Token.numberValue digits places))).expression
  have hTree := (Parser.ofTokens_eq_ok_iff_derives (numeral digits places).utf8ByteSize
    [⟨.number (Token.numberValue digits places), 0⟩] _).1.2 hDerives
  rw [Expr.parse, hReads]
  simp only [hTree]

/-! ## All of arithmetic -/

/-- The values of numerals, of opposites and of the infix operators. -/
structure ArithmeticOutcomes (env : Json) : Prop where
  numerals (digits places : List Char) : digits ≠ [] → digits.all Char.isDigit = true →
    places.all Char.isDigit = true → ∃ e v, Expr.parse (numeral digits places) = .ok e ∧
      e.eval env = .ok v ∧
      v.Becomes (Nat.ofDigitChars 10 (digits ++ places) 0 / 10 ^ places.length)
  opposites {e : Expr} {n : Number} : e.eval env = .ok (.num n) → n.Legal →
    ∃ m : Number, (Expr.unary .negate e).eval env = .ok (.num m) ∧ m.Legal ∧
      Binary64.value m.toFloat = -Binary64.value n.toFloat
  operators (op : BinaryOp) {l r : Expr} {a b : Json} {x y : Float} : op ∈ arithmeticOps →
    l.eval env = .ok a → r.eval env = .ok b → Operand a x → Operand b y →
    a.kind = .number ∨ b.kind = .number →
    Outcome op (Binary64.value x) (Binary64.value y) ((Expr.binary op l r).eval env)

/-- A number is null only beyond the range of doubles, and never as an opposite or a remainder. -/
theorem arithmetic_outcomes (env : Json) : ArithmeticOutcomes env where
  numerals _ _ hSome hDigits hPlaces :=
    ⟨_, _, parse_numeral hSome hDigits hPlaces, rfl, becomes_ofFloat (rounded_numberValue _ _)⟩
  opposites {e n} he hLegal := by
    have hFinite := Number.isFinite_toFloat hLegal
    obtain ⟨m, hEq, hLegal', hValue⟩ := exists_ofFloat_eq_num (isFinite_neg hFinite)
    refine ⟨m, ?_, hLegal', hValue.trans (value_neg hFinite)⟩
    simp only [eval, he, applyUnary, hEq]
  operators _ _ _ _ _ _ _ hOp hl hr ha hb hNumber := by
    rw [eval_binary_arithmetic hOp hl hr, applyBinary_eq_combine hOp hNumber]
    exact outcome_combine hOp ha hb

/-- A price with two hundred zeros. -/
def price : Float := 1e200

/-- The first second of a day. -/
def morning : Instant := ⟨1704844800, 0⟩

/-- The price, and that second. -/
def offer : Json := .obj [("listed", .str "2024-01-10T00:00:00Z"), ("price", .num (.float price))]

theorem eval_price : (Expr.ident "price").eval offer = .ok (.num (.float price)) := rfl

theorem arithmetic_outcomes_offer :
    (∃ e v, Expr.parse (numeral ['4', '2'] ['5']) = .ok e ∧ e.eval offer = .ok v ∧
      v.Becomes (Nat.ofDigitChars 10 ['4', '2', '5'] 0 / 10 ^ 1)) ∧
    (∃ m : Number, (Expr.unary .negate (.ident "price")).eval offer = .ok (.num m) ∧ m.Legal ∧
      Binary64.value m.toFloat = -Binary64.value price) ∧
    Outcome .sub (Binary64.value (ofInt morning.seconds + ofInt morning.millis / 1000.0))
      (Binary64.value price) ((Expr.binary .sub (.ident "listed") (.ident "price")).eval offer) := by
  have hLegal : (Number.float price).Legal := .float (by decide +kernel)
  have hListed : (Expr.ident "listed").eval offer = .ok (.str "2024-01-10T00:00:00Z") := rfl
  have hTime : Instant.read? "2024-01-10T00:00:00Z" = some morning := by decide +kernel
  have hOutcomes := arithmetic_outcomes offer
  have hNumeral := hOutcomes.numerals ['4', '2'] ['5'] (by decide) (by decide) (by decide)
  have hOpposite := hOutcomes.opposites eval_price hLegal
  have hDifference := hOutcomes.operators .sub (by decide) hListed eval_price (.timestamp hTime)
    (.number hLegal) (.inr rfl)
  exact ⟨hNumeral, hOpposite, hDifference⟩

/-- The square of such a price is null, which is not reported as an error and can be asked for, and
a numeral of one with 309 zeros is null as well. -/
theorem null_beyond_doubles :
    (Expr.binary .mul (.ident "price") (.ident "price")).eval offer = .ok .null ∧
      (Expr.binary .eq (.binary .mul (.ident "price") (.ident "price")) (.literal .null)).eval
        offer = .ok (.bool true) ∧
      ∃ e, Expr.parse (numeral ('1' :: List.replicate 309 '0') []) = .ok e ∧
        e.eval offer = .ok .null := by
  have hSquare : (Expr.binary .mul (.ident "price") (.ident "price")).eval offer = .ok .null := by
    have hInfinite : (price * price).isFinite = false := by decide +kernel
    have hNotWhole : toInt? (price * price) = none := by decide +kernel
    rw [eval_binary_arithmetic (by decide) eval_price eval_price, applyBinary, combine]
    simp only [Json.toSeconds?, Number.toFloat, arithmetic, Json.ofFloat, hNotWhole, hInfinite,
      Bool.false_eq_true, if_false]
  have hDigits : ('1' :: List.replicate 309 '0').all Char.isDigit = true := by decide +kernel
  refine ⟨hSquare, eval_binary_eq hSquare (by rw [eval]), _,
    parse_numeral (List.cons_ne_nil _ _) hDigits rfl, ?_⟩
  have hBecomes := becomes_ofFloat (rounded_numberValue ('1' :: List.replicate 309 '0') [])
  have hValue : Nat.ofDigitChars 10 ('1' :: List.replicate 309 '0' ++ []) 0 = 10 ^ 309 := by
    decide +kernel
  -- the numeral is the power of ten, which is beyond every double
  have hBeyond : limit ≤ ((10 ^ 309 : ℕ) : ℚ) / 10 ^ ([] : List Char).length := by
    have hPowers : 2 ^ 1024 ≤ 10 ^ 309 := by decide +kernel
    have hCast : ((2 ^ 1024 : ℕ) : ℚ) ≤ (10 ^ 309 : ℕ) := Nat.cast_le.2 hPowers
    rw [Nat.cast_pow, Nat.cast_ofNat] at hCast
    rw [List.length_nil, pow_zero, div_one]
    exact limit_le_two_pow.trans hCast
  rw [hValue] at hBecomes
  rw [eval]
  generalize Json.ofFloat _ = v at hBecomes ⊢
  cases hBecomes with
  | number inRange => exact absurd ((le_abs_self _).trans_lt inRange) (not_lt.2 hBeyond)
  | null => rfl

end Expr

end ItemComposition
