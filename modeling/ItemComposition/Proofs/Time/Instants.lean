import ItemComposition.Time.Rfc3339
import Mathlib

/-!
# The range of timestamps

A timestamp has four digits for the year and two for every other part, at most nine digits of its
fraction count, and the offset is below a day. So the seconds and the nanoseconds that it stands for
are in a range that doubles have all whole numbers of.

## Key results

- `digitsValue_lt`: as many digits, as great a number
- `read?_range`: the seconds and the nanoseconds of a timestamp
-/

namespace ItemComposition.Instant

variable {cs rest : List Char} {n count year month day : Nat}

/-! ## Digits -/

theorem digit_le {c : Char} (h : c.isDigit = true) : c.toNat - '0'.toNat ≤ 9 := by
  simp only [Char.isDigit, Bool.and_eq_true, decide_eq_true_eq] at h
  have hHigh : c.toNat ≤ 57 := UInt32.le_iff_toNat_le.1 h.2
  have hZero : '0'.toNat = 48 := rfl
  omega

/-- Digits after a number add as many places to it. -/
theorem foldl_digits_lt (h : ∀ c ∈ cs, c.isDigit = true) (n : Nat) :
    cs.foldl (fun n c => n * 10 + (c.toNat - '0'.toNat)) n < (n + 1) * 10 ^ cs.length := by
  induction cs generalizing n with
  | nil => simp
  | cons c cs ih =>
    have hDigit := digit_le (h c List.mem_cons_self)
    have hRest := ih (fun d hd => h d (List.mem_cons_of_mem c hd)) (n * 10 + (c.toNat - '0'.toNat))
    rw [List.foldl_cons, List.length_cons, pow_succ']
    calc _ < (n * 10 + (c.toNat - '0'.toNat) + 1) * 10 ^ cs.length := hRest
      _ ≤ (n + 1) * 10 * 10 ^ cs.length := Nat.mul_le_mul_right _ (by omega)
      _ = (n + 1) * (10 * 10 ^ cs.length) := Nat.mul_assoc _ _ _

theorem digitsValue_lt (h : ∀ c ∈ cs, c.isDigit = true) : digitsValue cs < 10 ^ cs.length := by
  have hLess := foldl_digits_lt h 0
  rwa [Nat.zero_add, Nat.one_mul] at hLess

theorem lt_of_fixedDigits (h : fixedDigits count cs = some (n, rest)) : n < 10 ^ count := by
  unfold fixedDigits at h
  simp only at h
  split at h
  · next hDigits =>
    simp only [Bool.and_eq_true, decide_eq_true_eq, List.all_eq_true] at hDigits
    cases h
    have hLess := digitsValue_lt hDigits.2
    rwa [hDigits.1] at hLess
  · cases h

/-- The digits of a fraction that count are nanoseconds. -/
theorem lt_of_fraction (h : fraction cs = some (n, rest)) : n < 1000000000 := by
  unfold fraction at h
  split at h
  · next cs =>
    simp only at h
    split at h
    · cases h
    · cases h
      -- at most nine digits are kept, and the places they lack are filled up with zeros
      obtain ⟨kept, hKept⟩ : ∃ kept, kept = (cs.takeWhile Char.isDigit).take 9 := ⟨_, rfl⟩
      have hLength : kept.length ≤ 9 := by
        rw [hKept]
        exact List.length_take_le 9 _
      have hDigits : ∀ c ∈ kept, c.isDigit = true := by
        intro c hc
        rw [hKept] at hc
        exact List.mem_takeWhile_imp (List.mem_of_mem_take hc)
      rw [← hKept]
      calc digitsValue kept * 10 ^ (9 - kept.length)
          < 10 ^ kept.length * 10 ^ (9 - kept.length) :=
            Nat.mul_lt_mul_of_pos_right (digitsValue_lt hDigits) (by positivity)
        _ = 1000000000 := by
            rw [← pow_add, Nat.add_sub_cancel' hLength]
            norm_num
  · cases h
    norm_num

theorem natAbs_le_of_offset {shift : Int} (h : offset cs = some (shift, rest)) :
    shift.natAbs ≤ 1439 := by
  unfold offset at h
  split at h
  · cases h
  · split at h
    · cases h
      norm_num
    · split at h
      · simp only [Option.bind_eq_bind, Option.bind_eq_some_iff] at h
        obtain ⟨⟨hours, cs₁⟩, -, cs₂, -, ⟨minutes, cs₃⟩, -, h⟩ := h
        simp only at h
        split at h
        · cases h
        · next hRange =>
          -- an hour is at most 23 and a minute at most 59
          simp only [Bool.or_eq_true, decide_eq_true_eq, not_or] at hRange
          cases h
          split <;> omega
      · cases h

/-! ## Days -/

theorem daysInMonth_le (year month : Nat) : daysInMonth year month ≤ 31 := by
  unfold daysInMonth
  split
  · split <;> omega
  · omega
  · omega
  · omega
  · omega
  · omega

theorem foldl_add_le {l : List Nat} (h : ∀ d ∈ l, d ≤ 31) (n : Nat) :
    l.foldl (· + ·) n ≤ n + 31 * l.length := by
  induction l generalizing n with
  | nil => simp
  | cons d l ih =>
    have hDay := h d List.mem_cons_self
    have hRest := ih (fun d hd => h d (List.mem_cons_of_mem _ hd)) (n + d)
    rw [List.foldl_cons, List.length_cons]
    omega

theorem daysBeforeMonth_le (year month : Nat) : daysBeforeMonth year month ≤ 31 * month := by
  have hDays : ∀ d ∈ (List.range month).tail.map (daysInMonth year), d ≤ 31 := by
    intro d hd
    obtain ⟨m, -, rfl⟩ := List.mem_map.1 hd
    exact daysInMonth_le year m
  have hSum := foldl_add_le hDays 0
  rw [List.length_map, List.length_tail, List.length_range] at hSum
  unfold daysBeforeMonth
  omega

theorem daysBeforeYear_le (year : Nat) : daysBeforeYear year ≤ 366 * year := by
  unfold daysBeforeYear
  split
  · omega
  · simp only
    omega

theorem natAbs_daysSinceEpoch_le (hYear : year < 10000) (hMonth : month ≤ 12) (hDay : day ≤ 31) :
    (daysSinceEpoch year month day).natAbs ≤ 4000000 := by
  have hBeforeYear := daysBeforeYear_le year
  have hBeforeMonth := daysBeforeMonth_le year month
  have hEpoch : daysBeforeYear 1970 = 719528 := by decide
  unfold daysSinceEpoch
  rw [hEpoch]
  omega

/-! ## Timestamps -/

/-- The seconds of a timestamp are few enough for a double, and the nanoseconds are those of two
seconds at most. -/
theorem read?_range {text : String} {t : Instant} (h : read? text = some t) :
    t.seconds.natAbs ≤ 2 ^ 40 ∧ t.nanos < 2 * TimeUnit.second.nanos := by
  unfold read? at h
  obtain ⟨⟨year, cs⟩, hYear, h⟩ := Option.bind_eq_some_iff.1 h
  obtain ⟨cs, -, h⟩ := Option.bind_eq_some_iff.1 h
  obtain ⟨⟨month, cs⟩, -, h⟩ := Option.bind_eq_some_iff.1 h
  obtain ⟨cs, -, h⟩ := Option.bind_eq_some_iff.1 h
  obtain ⟨⟨day, cs⟩, -, h⟩ := Option.bind_eq_some_iff.1 h
  -- the separator is the only place where the text is looked at without a reader
  simp only at h
  split at h
  · split at h
    · obtain ⟨cs, -, h⟩ := Option.bind_eq_some_iff.1 h
      obtain ⟨⟨hour, cs⟩, -, h⟩ := Option.bind_eq_some_iff.1 h
      obtain ⟨cs, -, h⟩ := Option.bind_eq_some_iff.1 h
      obtain ⟨⟨minute, cs⟩, -, h⟩ := Option.bind_eq_some_iff.1 h
      obtain ⟨cs, -, h⟩ := Option.bind_eq_some_iff.1 h
      obtain ⟨⟨second, cs⟩, -, h⟩ := Option.bind_eq_some_iff.1 h
      obtain ⟨⟨nanos, cs⟩, hNanos, h⟩ := Option.bind_eq_some_iff.1 h
      obtain ⟨⟨shift, cs⟩, hShift, h⟩ := Option.bind_eq_some_iff.1 h
      simp only at h
      split at h
      · next hRange =>
        simp only [Bool.and_eq_true, decide_eq_true_eq] at hRange
        obtain ⟨⟨⟨⟨⟨⟨⟨-, -⟩, hMonth⟩, -⟩, hDay⟩, hHour⟩, hMinute⟩, -⟩ := hRange
        have hNanosLess := lt_of_fraction hNanos
        have hShiftLe := natAbs_le_of_offset hShift
        have hDays := natAbs_daysSinceEpoch_le (lt_of_fixedDigits hYear) hMonth
          (hDay.trans (daysInMonth_le year month))
        have hSecond : TimeUnit.second.nanos = 1000000000 := rfl
        cases h
        simp only [hSecond]
        constructor
        · omega
        · split <;> omega
      · cases h
    · cases h
  · cases h

end ItemComposition.Instant
