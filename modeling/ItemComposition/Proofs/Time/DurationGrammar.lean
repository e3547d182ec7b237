import ItemComposition.Time.Amount
import Mathlib.Data.List.Basic
import Mathlib.Data.List.TakeWhile

/-!
# The grammar of written durations

Behind at most one sign a duration is `0`, or amounts in a row: numbers with units. Numbers are made
of digits and points and the signs of units have neither, so where a number or a unit ends is never
in doubt, and reading an amount off the start of a text is the only way to cut it.

## Key results

- `readNumber?_eq_some_iff`, `TimeUnit.read?_eq_some_iff`: the two parts of an amount
- `readMany_eq`: a turn of the loop, which goes on with a shorter text only
- `readMany_eq_ok_iff`: amounts in a row
- `readAll?_eq_ok_iff`: what a text denotes
- `readAll?_accepts`: which texts are read, and what a sign does to them
-/

namespace ItemComposition

/-! ## Units -/

namespace TimeUnit

/-- How a unit may be written. -/
def signs : TimeUnit → List String
  | nanosecond => ["ns"]
  | microsecond => ["us", "\u00b5s", "\u03bcs"]
  | millisecond => ["ms"]
  | second => ["s"]
  | minute => ["m"]
  | hour => ["h"]

variable {sign : String} {u : TimeUnit}

theorem read?_eq_some_iff : read? sign = some u ↔ sign ∈ u.signs := by
  unfold read?
  split <;> cases u <;> simp_all [signs]

/-- A unit is written with some characters, none of which a number has. -/
theorem apart_of_mem_signs (h : sign ∈ u.signs) :
    sign.toList ≠ [] ∧ ∀ c ∈ sign.toList, Amount.isNumberChar c = false := by
  have hAll : ∀ sign ∈ u.signs, sign.toList ≠ [] ∧
      sign.toList.any Amount.isNumberChar = false := by
    cases u <;> decide
  obtain ⟨hSome, hApart⟩ := hAll sign h
  exact ⟨hSome, fun c hc => Bool.eq_false_iff.2 (List.any_eq_false.1 hApart c hc)⟩

end TimeUnit

namespace Amount

/-! ## Numbers -/

/-- Digits with at most one point among them, and at least one digit; with what they are without the
point, and how many of them stand behind it. -/
inductive Number : List Char → Nat → Nat → Prop
  | whole {digits : List Char} (some : digits ≠ []) (all : ∀ c ∈ digits, c.isDigit = true) :
    Number digits (digitsValue digits) 0
  | pointed {digits places : List Char} (some : digits ++ places ≠ [])
    (all : ∀ c ∈ digits ++ places, c.isDigit = true) :
    Number (digits ++ '.' :: places) (digitsValue (digits ++ places)) places.length

variable {cs : List Char} {digits places : Nat} {amounts : List Amount}

theorem isNumberChar_of_isDigit {c : Char} (h : c.isDigit = true) : isNumberChar c = true := by
  rw [isNumberChar, h, Bool.true_or]

theorem Number.chars (h : Number cs digits places) : ∀ c ∈ cs, isNumberChar c = true := by
  cases h with
  | whole some all => exact fun c hc => isNumberChar_of_isDigit (all c hc)
  | pointed some all =>
    intro c hc
    rcases List.mem_append.1 hc with hWhole | hPoint
    · exact isNumberChar_of_isDigit (all c (List.mem_append_left _ hWhole))
    · rcases List.mem_cons.1 hPoint with rfl | hPlace
      · rfl
      · exact isNumberChar_of_isDigit (all c (List.mem_append_right _ hPlace))

theorem Number.ne_nil (h : Number cs digits places) : cs ≠ [] := by
  cases h with
  | whole some all => exact some
  | pointed some all => exact List.append_ne_nil_of_right_ne_nil _ (List.cons_ne_nil _ _)

/-- Where what is taken of a text ends: at the first character that does not count. -/
theorem cut_append {p : Char → Bool} {front rest : List Char} (hFront : ∀ c ∈ front, p c = true)
    (hRest : ∀ c ∈ rest.head?, p c = false) :
    (front ++ rest).takeWhile p = front ∧ (front ++ rest).dropWhile p = rest := by
  rw [List.takeWhile_append_of_pos hFront, List.dropWhile_append_of_pos hFront]
  cases rest with
  | nil => simp
  | cons c rest => simp [hRest c rfl]

theorem readNumber?_eq_some_iff (hChars : ∀ c ∈ cs, isNumberChar c = true) :
    readNumber? cs = some (digits, places) ↔ Number cs digits places := by
  constructor
  · intro h
    have hSplit := List.takeWhile_append_dropWhile (p := Char.isDigit) (l := cs)
    have hNot := List.head?_dropWhile_not Char.isDigit cs
    have hWhole := List.all_eq_true.1 (List.all_takeWhile (p := Char.isDigit) (l := cs))
    rw [readNumber?] at h
    generalize cs.takeWhile Char.isDigit = whole at hSplit hWhole h
    generalize cs.dropWhile Char.isDigit = rest at hSplit hNot h
    subst hSplit
    cases rest with
    | nil =>
      simp only [List.isEmpty_iff] at h
      split at h
      · cases h
      · rename_i hSome
        cases h
        rw [List.append_nil]
        exact .whole hSome hWhole
    | cons point fraction =>
      -- the first character that is no digit is a point
      have hChar := hChars point (List.mem_append_right _ List.mem_cons_self)
      have hDigit : point.isDigit = false := by simpa using hNot
      obtain rfl : point = '.' := by simpa [isNumberChar, hDigit] using hChar
      simp only [Bool.and_eq_true, Bool.not_eq_true', List.isEmpty_eq_false_iff] at h
      split at h
      · rename_i hCond
        cases h
        refine .pointed hCond.2 fun c hc => ?_
        rcases List.mem_append.1 hc with hMem | hMem
        · exact hWhole c hMem
        · exact List.all_eq_true.1 hCond.1 c hMem
      · cases h
  · intro h
    cases h with
    | whole some all =>
      rw [readNumber?, List.dropWhile_eq_nil_iff.2 all, List.takeWhile_eq_self_iff.2 all]
      exact if_neg (by simpa using some)
    | @pointed digits places some all =>
      obtain ⟨hTake, hDrop⟩ := @cut_append Char.isDigit digits ('.' :: places)
        (fun c hc => all c (List.mem_append_left _ hc)) (by simp)
      have hPlaces : places.all Char.isDigit = true :=
        List.all_eq_true.2 fun c hc => all c (List.mem_append_right _ hc)
      have hSome : (digits ++ places).isEmpty = false := List.isEmpty_eq_false_iff.2 some
      simp only [readNumber?, hTake, hDrop, hPlaces, hSome, Bool.not_false, Bool.and_self, if_true]

/-! ## Amounts in a row -/

/-- Amounts, each a number with the sign of a unit behind it. -/
inductive Spelled : List Char → List Amount → Prop
  | nil : Spelled [] []
  | cons {number rest : List Char} {sign : String} {digits places : Nat} {unit : TimeUnit}
    {amounts : List Amount} (isNumber : Number number digits places) (isSign : sign ∈ unit.signs)
    (others : Spelled rest amounts) :
    Spelled (number ++ (sign.toList ++ rest)) (⟨digits, places, unit⟩ :: amounts)

/-- What a turn of the loop leaves of a text: what is behind its first number and its first unit. -/
def remainder (cs : List Char) : List Char :=
  (cs.dropWhile isNumberChar).dropWhile (!isNumberChar ·)

/-- What is behind a number is less than there was. -/
theorem length_dropWhile_lt {number : Nat × Nat}
    (h : readNumber? (cs.takeWhile isNumberChar) = some number) :
    (cs.dropWhile isNumberChar).length < cs.length := by
  have hSplit := congrArg List.length
    (List.takeWhile_append_dropWhile (p := isNumberChar) (l := cs))
  rw [List.length_append] at hSplit
  have hSome : (cs.takeWhile isNumberChar).length ≠ 0 := by
    intro hLength
    rw [List.length_eq_zero_iff.1 hLength] at h
    cases h
  omega

/-- A turn that finds a number leaves a shorter text. -/
theorem length_remainder_lt {number : Nat × Nat}
    (h : readNumber? (cs.takeWhile isNumberChar) = some number) :
    (remainder cs).length < cs.length :=
  Nat.lt_of_le_of_lt (List.dropWhile_suffix _).length_le (length_dropWhile_lt h)

/-- A turn of the loop. -/
theorem readMany_eq (text : String) (hSome : cs ≠ []) : readMany text cs =
    match readNumber? (cs.takeWhile isNumberChar) with
    | none => .error (.invalid text)
    | some (digits, places) =>
      let unit := String.ofList ((cs.dropWhile isNumberChar).takeWhile (!isNumberChar ·))
      match TimeUnit.read? unit with
      | none => .error (if unit = "" then .missingUnit text else .unknownUnit unit text)
      | some u => (readMany text (remainder cs)).map (⟨digits, places, u⟩ :: ·) := by
  cases cs with
  | nil => exact absurd rfl hSome
  | cons c rest =>
    rw [readMany]
    cases hNumber : readNumber? ((c :: rest).takeWhile isNumberChar) with
    | none => rfl
    | some number =>
      -- the termination check asks for a shorter rest, and there is one as the number has a
      -- character
      have hLess := length_dropWhile_lt hNumber
      simp only [hLess, dif_pos, remainder]
      cases TimeUnit.read?
          (String.ofList (((c :: rest).dropWhile isNumberChar).takeWhile (!isNumberChar ·))) with
      | none => rfl
      | some u =>
        dsimp only
        cases readMany text
          (((c :: rest).dropWhile isNumberChar).dropWhile (!isNumberChar ·)) <;> rfl

/-- A turn ends the loop with an error, or takes an amount off the text and goes on with less. -/
theorem readMany_turn (text : String) (hSome : cs ≠ []) :
    (∃ e, readMany text cs = .error e) ∨
      ∃ amount, readMany text cs = (readMany text (remainder cs)).map (amount :: ·) ∧
        (remainder cs).length < cs.length := by
  rw [readMany_eq text hSome]
  cases hNumber : readNumber? (cs.takeWhile isNumberChar) with
  | none => exact .inl ⟨_, rfl⟩
  | some number =>
    have hLess := length_remainder_lt hNumber
    cases hUnit : TimeUnit.read?
        (String.ofList ((cs.dropWhile isNumberChar).takeWhile (!isNumberChar ·))) with
    | none => exact .inl ⟨_, by simp only [hUnit]; rfl⟩
    | some u => exact .inr ⟨⟨number.1, number.2, u⟩, by simp only [hUnit], hLess⟩

theorem Spelled.head (h : Spelled cs amounts) : ∀ c ∈ cs.head?, isNumberChar c = true := by
  cases h with
  | nil => exact nofun
  | @cons number rest sign digits places unit amounts isNumber isSign others =>
    intro c hc
    rw [List.head?_append_of_ne_nil _ isNumber.ne_nil] at hc
    exact isNumber.chars c (List.mem_of_mem_head? hc)

theorem spelled_of_readMany {text : String} (h : readMany text cs = .ok amounts) :
    Spelled cs amounts := by
  -- by induction on the length, as the loop goes on with what a turn leaves
  induction hLength : cs.length using Nat.strong_induction_on generalizing cs amounts with
  | _ n ih =>
    by_cases hEmpty : cs = []
    · subst hEmpty
      rw [readMany] at h
      cases h
      exact .nil
    · rw [readMany_eq text hEmpty] at h
      cases hNumber : readNumber? (cs.takeWhile isNumberChar) with
      | none => simp [hNumber] at h
      | some number =>
        cases hUnit : TimeUnit.read?
            (String.ofList ((cs.dropWhile isNumberChar).takeWhile (!isNumberChar ·))) with
        | none => simp [hNumber, hUnit] at h
        | some u =>
          cases hOthers : readMany text (remainder cs) with
          | error e => simp [hNumber, hUnit, hOthers, Except.map] at h
          | ok others =>
            simp only [hNumber, hUnit, hOthers, Except.map, Except.ok.injEq] at h
            have hLess := length_remainder_lt hNumber
            have hRest := ih _ (hLength ▸ hLess) hOthers rfl
            have hChars := List.all_eq_true.1 (List.all_takeWhile (p := isNumberChar) (l := cs))
            have hSpelled := Spelled.cons ((readNumber?_eq_some_iff hChars).1 hNumber)
              (TimeUnit.read?_eq_some_iff.1 hUnit) hRest
            rwa [String.toList_ofList, remainder, List.takeWhile_append_dropWhile,
              List.takeWhile_append_dropWhile, h] at hSpelled

theorem readMany_of_spelled (text : String) (h : Spelled cs amounts) :
    readMany text cs = .ok amounts := by
  induction h with
  | nil => rw [readMany]
  | @cons number rest sign digits places unit amounts isNumber isSign others ih =>
    obtain ⟨hSome, hApart⟩ := TimeUnit.apart_of_mem_signs isSign
    -- the number ends where the unit starts, and the unit where the next number does
    have hNumberEnd : ∀ c ∈ (sign.toList ++ rest).head?, isNumberChar c = false := by
      intro c hc
      rw [List.head?_append_of_ne_nil _ hSome] at hc
      exact hApart c (List.mem_of_mem_head? hc)
    obtain ⟨hNumber, hBehind⟩ := cut_append isNumber.chars hNumberEnd
    obtain ⟨hSign, hRest⟩ := @cut_append (!isNumberChar ·) sign.toList rest
      (fun c hc => by rw [hApart c hc]; rfl)
      (fun c hc => by rw [others.head c hc]; rfl)
    have hNe : number ++ (sign.toList ++ rest) ≠ [] :=
      List.append_ne_nil_of_left_ne_nil isNumber.ne_nil _
    have hRead := (readNumber?_eq_some_iff isNumber.chars).2 isNumber
    have hUnit := TimeUnit.read?_eq_some_iff.2 isSign
    rw [readMany_eq text hNe]
    simp only [remainder, hNumber, hBehind, hSign, hRest, hRead, String.ofList_toList, hUnit, ih,
      Except.map]

theorem readMany_eq_ok_iff (text : String) : readMany text cs = .ok amounts ↔ Spelled cs amounts :=
  ⟨spelled_of_readMany, readMany_of_spelled text⟩

/-- Every amount takes two characters at least. -/
theorem Spelled.length_le (h : Spelled cs amounts) : 2 * amounts.length ≤ cs.length := by
  induction h with
  | nil => exact Nat.le_refl _
  | cons isNumber isSign others ih =>
    have hNumber := List.length_pos_iff.2 isNumber.ne_nil
    have hSign := List.length_pos_iff.2 (TimeUnit.apart_of_mem_signs isSign).1
    simp only [List.length_cons, List.length_append]
    omega

/-! ## Durations -/

/-- What the part behind the sign of a duration denotes. -/
inductive Denotes : List Char → Int → Prop
  | zero : Denotes ['0'] 0
  | amounts {cs : List Char} {amounts : List Amount} (some : amounts ≠ [])
    (spelled : Spelled cs amounts) : Denotes cs (sum amounts)

/-- A duration: at most one sign, and what is behind it. -/
inductive Duration : List Char → Int → Prop
  | unsigned {body : List Char} {n : Int} (denotes : Denotes body n) : Duration body n
  | plus {body : List Char} {n : Int} (denotes : Denotes body n) : Duration ('+' :: body) n
  | minus {body : List Char} {n : Int} (denotes : Denotes body n) : Duration ('-' :: body) (-n)

/-- Reads the part of a duration behind its sign; `text` is the whole text, for messages. -/
def readBody (text : String) (negative : Bool) : List Char → Except DurationError Int
  | ['0'] => .ok 0
  | [] => .error (.invalid text)
  | body =>
    match readMany text body with
    | .ok amounts => .ok (if negative then -(sum amounts) else sum amounts)
    | .error e => .error e

variable {body : List Char} {n : Int}

theorem Spelled.ne_zero (h : Spelled cs amounts) : cs ≠ ['0'] := by
  intro hZero
  have hLength := h.length_le
  rw [hZero, List.length_singleton] at hLength
  -- so there are no amounts, and then there is no text
  cases h with
  | nil => cases hZero
  | cons isNumber isSign others =>
    rw [List.length_cons] at hLength
    omega

theorem Spelled.eq_nil (h : Spelled [] amounts) : amounts = [] := by
  have hLength := h.length_le
  rw [List.length_nil] at hLength
  exact List.eq_nil_of_length_eq_zero (by omega)

theorem Denotes.eq_zero (h : Denotes ['0'] n) : n = 0 := by
  generalize hBody : ['0'] = body at h
  cases h with
  | zero => rfl
  | amounts some spelled => exact absurd hBody.symm spelled.ne_zero

theorem readBody_eq_ok_iff (text : String) (negative : Bool) :
    readBody text negative body = .ok n ↔ ∃ m, Denotes body m ∧ n = if negative then -m else m := by
  unfold readBody
  split
  · rw [Except.ok.injEq]
    constructor
    · rintro rfl
      exact ⟨0, .zero, by cases negative <;> rfl⟩
    · rintro ⟨m, h, rfl⟩
      rw [h.eq_zero]
      cases negative <;> rfl
  · simp only [reduceCtorEq, false_iff]
    rintro ⟨m, h, -⟩
    cases h with
    | amounts some spelled => exact some spelled.eq_nil
  · -- neither zero nor nothing: at least one amount
    rename_i hZero hNil
    constructor
    · intro h
      cases hMany : readMany text body with
      | error e =>
        rw [hMany] at h
        cases h
      | ok amounts =>
        rw [hMany] at h
        cases h
        have hSpelled := spelled_of_readMany hMany
        refine ⟨_, .amounts ?_ hSpelled, rfl⟩
        rintro rfl
        cases hSpelled
        exact hNil rfl
    · rintro ⟨m, h, rfl⟩
      cases h with
      | zero => exact absurd rfl hZero
      | amounts some spelled => rw [readMany_of_spelled text spelled]

/-- The sign at the start of a text, if it is a minus, and what is behind the sign. -/
def takeSign : List Char → Bool × List Char
  | '-' :: body => (true, body)
  | '+' :: body => (false, body)
  | body => (false, body)

/-- A text is read by what is behind its sign. -/
theorem readAll?_eq (text : String) :
    readAll? text = readBody (Text.trim text) (takeSign (Text.trim text).toList).1
      (takeSign (Text.trim text).toList).2 := by
  rw [readAll?]
  dsimp only
  -- only the form of the text counts, so nothing is to be computed of it
  generalize Text.trim text = trimmed
  generalize trimmed.toList = cs
  rfl

/-- No part behind a sign starts with one. -/
theorem Denotes.head (h : Denotes body n) : ∀ c ∈ body.head?, isNumberChar c = true := by
  cases h with
  | zero =>
    rintro _ ⟨⟩
    rfl
  | amounts some spelled => exact spelled.head

/-- A duration is a sign or none, and what is behind it. -/
theorem duration_iff : Duration cs n ↔
    ∃ m, Denotes (takeSign cs).2 m ∧ n = if (takeSign cs).1 then -m else m := by
  unfold takeSign
  split
  · rename_i body
    constructor
    · intro h
      cases h with
      | minus denotes => exact ⟨_, denotes, rfl⟩
      -- an unsigned body has no sign in front, so the reading of the sign is unique
      | unsigned denotes => exact absurd (denotes.head '-' rfl) (by decide)
    · rintro ⟨m, denotes, rfl⟩
      exact .minus denotes
  · rename_i body
    constructor
    · intro h
      cases h with
      | plus denotes => exact ⟨_, denotes, rfl⟩
      | unsigned denotes => exact absurd (denotes.head '+' rfl) (by decide)
    · rintro ⟨m, denotes, rfl⟩
      exact .plus denotes
  · rename_i hMinus hPlus
    constructor
    · intro h
      cases h with
      | unsigned denotes => exact ⟨_, denotes, rfl⟩
      | plus denotes => exact absurd rfl (hPlus _)
      | minus denotes => exact absurd rfl (hMinus _)
    · rintro ⟨m, denotes, rfl⟩
      exact .unsigned denotes

theorem readAll?_eq_ok_iff {text : String} :
    readAll? text = .ok n ↔ Duration (Text.trim text).toList n := by
  rw [readAll?_eq, readBody_eq_ok_iff, duration_iff]

theorem exists_denotes_iff : (∃ n, Denotes body n) ↔
    body = ['0'] ∨ ∃ amounts, amounts ≠ [] ∧ Spelled body amounts := by
  constructor
  · rintro ⟨n, denotes⟩
    cases denotes with
    | zero => exact .inl rfl
    | amounts some spelled => exact .inr ⟨_, some, spelled⟩
  · rintro (rfl | ⟨amounts, hSome, hSpelled⟩)
    · exact ⟨0, .zero⟩
    · exact ⟨_, .amounts hSome hSpelled⟩

theorem exists_duration_iff : (∃ n, Duration cs n) ↔ ∃ sign body, cs = sign ++ body ∧
    sign ∈ [[], ['+'], ['-']] ∧
    (body = ['0'] ∨ ∃ amounts, amounts ≠ [] ∧ Spelled body amounts) := by
  simp only [← exists_denotes_iff]
  constructor
  · rintro ⟨n, h⟩
    cases h with
    | unsigned denotes => exact ⟨[], _, rfl, by decide, _, denotes⟩
    | plus denotes => exact ⟨['+'], _, rfl, by decide, _, denotes⟩
    | minus denotes => exact ⟨['-'], _, rfl, by decide, _, denotes⟩
  · rintro ⟨sign, body, rfl, hSign, n, denotes⟩
    simp only [List.mem_cons, List.not_mem_nil, or_false] at hSign
    rcases hSign with rfl | rfl | rfl
    · exact ⟨n, .unsigned denotes⟩
    · exact ⟨n, .plus denotes⟩
    · exact ⟨-n, .minus denotes⟩

/-! ## Texts without blanks -/

theorem isBlank_of_isNumberChar {c : Char} (h : isNumberChar c = true) :
    Text.isBlank c = false := by
  rw [isNumberChar, Bool.or_eq_true, decide_eq_true_eq] at h
  rcases h with hDigit | rfl
  · have hRange : 48 ≤ c.toNat ∧ c.toNat ≤ 57 := by
      simpa [Char.isDigit, UInt32.le_iff_toNat_le] using hDigit
    simp only [Text.isBlank, Bool.or_eq_false_iff, Bool.and_eq_false_iff, decide_eq_false_iff_not]
    omega
  · rfl

theorem Spelled.not_isBlank (h : Spelled cs amounts) : ∀ c ∈ cs, Text.isBlank c = false := by
  induction h with
  | nil => exact nofun
  | @cons number rest sign digits places unit amounts isNumber isSign others ih =>
    have hSign : ∀ sign ∈ unit.signs, sign.toList.any Text.isBlank = false := by
      cases unit <;> decide
    intro c hc
    rcases List.mem_append.1 hc with hNumber | hBehind
    · exact isBlank_of_isNumberChar (isNumber.chars c hNumber)
    · rcases List.mem_append.1 hBehind with hUnit | hRest
      · exact Bool.eq_false_iff.2 (List.any_eq_false.1 (hSign sign isSign) c hUnit)
      · exact ih c hRest

theorem Duration.not_isBlank (h : Duration cs n) : ∀ c ∈ cs, Text.isBlank c = false := by
  have hBody : ∀ {body n}, Denotes body n → ∀ c ∈ body, Text.isBlank c = false := by
    intro body n h
    cases h with
    | zero => exact List.forall_mem_singleton.2 rfl
    | amounts some spelled => exact spelled.not_isBlank
  cases h with
  | unsigned denotes => exact hBody denotes
  | plus denotes | minus denotes => exact List.forall_mem_cons.2 ⟨by decide, hBody denotes⟩

theorem trim_of_not_isBlank (h : ∀ c ∈ cs, Text.isBlank c = false) :
    Text.trim (String.ofList cs) = String.ofList cs := by
  have hDrop : ∀ l : List Char, (∀ c ∈ l, Text.isBlank c = false) →
      l.dropWhile Text.isBlank = l := by
    intro l hl
    cases l with
    | nil => rfl
    | cons c l => rw [List.dropWhile_cons_of_neg (by simp [hl c List.mem_cons_self])]
  rw [Text.trim, Text.trimStart, Text.trimEnd, String.toList_ofList, hDrop cs h,
    hDrop cs.reverse (fun c hc => h c (List.mem_reverse.1 hc)), List.reverse_reverse]

/-- A duration is read as what it denotes. -/
theorem Duration.readAll? (h : Duration cs n) : Amount.readAll? (String.ofList cs) = .ok n := by
  rw [readAll?_eq_ok_iff, trim_of_not_isBlank h.not_isBlank, String.toList_ofList]
  exact h

/-! ## What is read -/

/-- A text is read exactly if, without the blanks around it, it is `0` or one amount or more behind
at most one sign; the value is that of the part behind the sign, which a minus negates. The loop
over the amounts ends on every text, with a shorter one at each turn. -/
theorem readAll?_accepts (text : String) :
    ((∃ n, readAll? text = .ok n) ↔ ∃ sign body, (Text.trim text).toList = sign ++ body ∧
      sign ∈ [[], ['+'], ['-']] ∧
      (body = ['0'] ∨ ∃ amounts, amounts ≠ [] ∧ Spelled body amounts)) ∧
    (∀ n, readAll? text = .ok n ↔ Duration (Text.trim text).toList n) ∧
    (∀ body n, Denotes body n → readAll? (String.ofList body) = .ok n ∧
      readAll? (String.ofList ('+' :: body)) = .ok n ∧
      readAll? (String.ofList ('-' :: body)) = .ok (-n)) ∧
    (∀ cs, cs ≠ [] → (∃ e, readMany text cs = .error e) ∨
      ∃ amount, readMany text cs = (readMany text (remainder cs)).map (amount :: ·) ∧
        (remainder cs).length < cs.length) := by
  refine ⟨?_, fun n => readAll?_eq_ok_iff, ?_, fun cs hSome => readMany_turn text hSome⟩
  · simp only [readAll?_eq_ok_iff]
    exact exists_duration_iff
  · intro body n denotes
    exact ⟨(Duration.unsigned denotes).readAll?, (Duration.plus denotes).readAll?,
      (Duration.minus denotes).readAll?⟩

/-- A minute and half a second, with a number that has no digit in front of its point, and a sign
in front of both amounts. -/
theorem readAll?_accepts_minute_and_half :
    Denotes "1m.5s".toList 60500000000 ∧ readAll? "1m.5s" = .ok 60500000000 ∧
      readAll? "-1m.5s" = .ok (-60500000000) ∧ ¬ ∃ n, readAll? "1m-.5s" = .ok n := by
  have hHalf : Number ".5".toList 5 1 := @Number.pointed [] ['5'] (List.cons_ne_nil _ _)
    (List.forall_mem_singleton.2 rfl)
  have hMinute : Number "1".toList 1 0 :=
    .whole (List.cons_ne_nil _ _) (List.forall_mem_singleton.2 rfl)
  have hSpelled : Spelled "1m.5s".toList [⟨1, 0, .minute⟩, ⟨5, 1, .second⟩] :=
    have hUnits : "m" ∈ TimeUnit.minute.signs ∧ "s" ∈ TimeUnit.second.signs := by decide
    .cons hMinute hUnits.1 (.cons hHalf hUnits.2 .nil)
  have hSum : sum [⟨1, 0, .minute⟩, ⟨5, 1, .second⟩] = 60500000000 := by decide +kernel
  have hDenotes : Denotes "1m.5s".toList 60500000000 := hSum ▸ .amounts nofun hSpelled
  obtain ⟨-, -, hSigned, -⟩ := readAll?_accepts "1m.5s"
  obtain ⟨hPlain, -, hMinus⟩ := hSigned _ _ hDenotes
  refine ⟨hDenotes, hPlain, hMinus, ?_⟩
  rintro ⟨n, hOk⟩
  have hError : readAll? "1m-.5s" = .error (.unknownUnit "m-" "1m-.5s") := by decide +kernel
  rw [hError] at hOk
  cases hOk

end Amount

end ItemComposition
