import ItemComposition.Config.Load

/-!
# Texts that variables hold

The value of a variable is kept as a truth value or a number if it looks like one, and written anew
where a text is wanted. A text comes back as it was exactly if it is written as it would be written
anew (`IsKept`): `7` does, `007` and `1e3` do not.

## Key results

- `readInt?_intText`: a whole number that is written is read again
- `text?_ofVariable_eq_some_iff`: the text that comes of a variable
- `respelled_self_iff`: which texts come back as they were
-/

namespace ItemComposition

/-! ## Whole numbers -/

namespace Decimal

theorem digitValue?_of_isDigit {c : Char} (h : c.isDigit = true) :
    digitValue? 10 c = some (c.toNat - '0'.toNat) := by
  have hBound : c.toNat - '0'.toNat < 10 := by
    have hRange := h
    simp only [Char.isDigit, Bool.and_eq_true, decide_eq_true_eq, ge_iff_le, UInt32.le_iff_toNat_le]
      at hRange
    have hLast : c.toNat ≤ 57 := hRange.2
    have hZero : '0'.toNat = 48 := rfl
    omega
  rw [digitValue?, if_pos h, Option.filter_some, if_pos (decide_eq_true hBound)]

theorem foldlM_digits {ds : List Char} (h : ∀ c ∈ ds, c.isDigit = true) (n : Nat) :
    ds.foldlM (fun n c => (digitValue? 10 c).map (n * 10 + ·)) n =
      some (ds.foldl (fun n c => n * 10 + (c.toNat - '0'.toNat)) n) := by
  induction ds generalizing n with
  | nil => rfl
  | cons c ds ih =>
    obtain ⟨hFirst, hRest⟩ := List.forall_mem_cons.1 h
    rw [List.foldlM_cons, digitValue?_of_isDigit hFirst, Option.map_some, Option.bind_eq_bind,
      Option.bind_some, ih hRest, List.foldl_cons]

theorem isDigit_of_mem_natDigits {n : Nat} {c : Char} (h : c ∈ natDigits n) : c.isDigit = true :=
  Nat.isDigit_of_mem_toDigits (by decide) (by decide) h

theorem readDigits?_natDigits (n : Nat) : readDigits? 10 (natDigits n) = some n := by
  have hNonempty : (natDigits n).isEmpty = false := by
    rw [List.isEmpty_eq_false_iff]
    exact Nat.toDigits_ne_nil
  have hValue : (natDigits n).foldl (fun n c => n * 10 + (c.toNat - '0'.toNat)) 0 = n := by
    have h := Nat.ofDigitChars_ten_toDigits (n := n)
    rw [Nat.ofDigitChars_eq_foldl] at h
    simpa only [natDigits, Nat.mul_comm 10] using h
  rw [readDigits?, hNonempty, if_neg Bool.false_ne_true,
    foldlM_digits (fun _ hc => isDigit_of_mem_natDigits hc), hValue]

theorem takeSign_of_isDigit {ds : List Char} (h : ∀ c ∈ ds, c.isDigit = true) :
    takeSign ds = (false, ds) := by
  unfold takeSign
  split
  · exact absurd (h '-' List.mem_cons_self) (by decide)
  · exact absurd (h '+' List.mem_cons_self) (by decide)
  · rfl

/-- A whole number is read as it is written. -/
theorem readInt?_intText (n : Int) : readInt? 10 (intText n).toList = some n := by
  cases n with
  | ofNat n =>
    rw [intText, String.toList_ofList, readInt?,
      takeSign_of_isDigit (fun _ hc => isDigit_of_mem_natDigits hc)]
    exact congrArg (Option.map _) (readDigits?_natDigits n)
  | negSucc n =>
    rw [intText, String.toList_ofList, readInt?, takeSign]
    exact congrArg (Option.map _) (readDigits?_natDigits (n + 1))

end Decimal

namespace Setting

variable {s r path : String}

/-! ## Values of variables -/

/-- A text that is one of the two words for truth values, in letters of any case. -/
def IsTruthWord (s : String) : Prop := Text.lower s = "true" ∨ Text.lower s = "false"

/-- A text that is a whole number in the range of signed words. -/
def ReadsAsWord (s : String) (n : Int) : Prop :=
  Decimal.readInt? 10 s.toList = some n ∧ Word.isSigned 64 n = true

/-- The text that comes of a variable's value. -/
inductive Respelled (s : String) : String → Prop
  | yes (word : Text.lower s = "true") : Respelled s "true"
  | no (word : Text.lower s = "false") : Respelled s "false"
  | whole {n : Int} (noWord : ¬ IsTruthWord s) (reads : ReadsAsWord s n) :
    Respelled s (Decimal.intText n)
  | float {x : Float} (noWord : ¬ IsTruthWord s) (noWhole : ∀ n, ¬ ReadsAsWord s n)
    (reads : Decimal.readFloat? s.toList = some x) : Respelled s (Decimal.Style.plain.float x)
  | same (noWord : ¬ IsTruthWord s) (noWhole : ∀ n, ¬ ReadsAsWord s n)
    (noFloat : Decimal.readFloat? s.toList = none) : Respelled s s

/-- A text is written as it would be written anew: it is one of the two words in small letters, or a
whole number that fits without anything superfluous, or neither of these and, if it is a number in
floating point at all, what that number is written as. -/
inductive IsKept : String → Prop
  | yes : IsKept "true"
  | no : IsKept "false"
  | whole {n : Int} (fits : Word.isSigned 64 n = true) : IsKept (Decimal.intText n)
  | other {s : String} (noWord : ¬ IsTruthWord s) (noWhole : ∀ n, ¬ ReadsAsWord s n)
    (float : ∀ x, Decimal.readFloat? s.toList = some x → Decimal.Style.plain.float x = s) : IsKept s

theorem filter_isSigned_eq_some_iff {n : Int} :
    (Decimal.readInt? 10 s.toList).filter (Word.isSigned 64) = some n ↔ ReadsAsWord s n :=
  Option.filter_eq_some_iff

theorem filter_isSigned_eq_none_iff :
    (Decimal.readInt? 10 s.toList).filter (Word.isSigned 64) = none ↔ ∀ n, ¬ ReadsAsWord s n := by
  simp only [← filter_isSigned_eq_some_iff, Option.eq_none_iff_forall_ne_some]

/-- A variable that holds one value is read as what its text looks like. -/
theorem exists_respelled (hPath : path ≠ listPath) (s : String) :
    ∃ r, text? (ofVariable path s) = some r ∧ Respelled s r := by
  unfold ofVariable
  -- words of truth are tried first, then whole numbers, then other numbers; a text is what is left
  by_cases hYes : Text.lower s = "true"
  · simp only [hYes, if_true]
    exact ⟨_, rfl, .yes hYes⟩
  by_cases hNo : Text.lower s = "false"
  · simp only [hNo, if_true]
    exact ⟨_, rfl, .no hNo⟩
  have hWord : ¬ IsTruthWord s := not_or.2 ⟨hYes, hNo⟩
  simp only [hYes, hNo, if_false]
  split
  · rename_i n hWhole
    exact ⟨_, rfl, .whole hWord (filter_isSigned_eq_some_iff.1 hWhole)⟩
  · rename_i hWhole
    rw [filter_isSigned_eq_none_iff] at hWhole
    split
    · rename_i x hFloat
      exact ⟨_, rfl, .float hWord hWhole hFloat⟩
    · rename_i hFloat
      rw [if_neg hPath]
      exact ⟨_, rfl, .same hWord hWhole hFloat⟩

theorem text?_ofVariable_of_respelled (hPath : path ≠ listPath) (h : Respelled s r) :
    text? (ofVariable path s) = some r := by
  unfold ofVariable
  cases h with
  | yes word => simp only [word, if_true]; rfl
  | no word =>
    simp only [word, if_true]
    rfl
  | whole noWord reads =>
    obtain ⟨hYes, hNo⟩ := not_or.1 noWord
    simp only [hYes, hNo, if_false, filter_isSigned_eq_some_iff.2 reads]
    rfl
  | float noWord noWhole reads =>
    obtain ⟨hYes, hNo⟩ := not_or.1 noWord
    simp only [hYes, hNo, if_false, filter_isSigned_eq_none_iff.2 noWhole, reads]
    rfl
  | same noWord noWhole noFloat =>
    obtain ⟨hYes, hNo⟩ := not_or.1 noWord
    simp only [hYes, hNo, if_false, filter_isSigned_eq_none_iff.2 noWhole, noFloat, hPath]
    rfl

/-- Every value of a variable has one text that comes of it. -/
theorem text?_ofVariable_eq_some_iff (hPath : path ≠ listPath) :
    text? (ofVariable path s) = some r ↔ Respelled s r := by
  refine ⟨fun h => ?_, text?_ofVariable_of_respelled hPath⟩
  obtain ⟨r', hText, hRespelled⟩ := exists_respelled hPath s
  rwa [Option.some.inj (h.symm.trans hText)]

theorem Respelled.unique {r' : String} (h : Respelled s r) (h' : Respelled s r') : r = r' := by
  have hPath : "" ≠ listPath := by decide
  rw [← text?_ofVariable_eq_some_iff hPath] at h h'
  exact Option.some.inj (h.symm.trans h')

/-- What can be read as a text is no table, and so replaces what was there. -/
theorem merge_of_text? {v : Setting} (h : text? v = some r) (under : Setting) : merge v under = v := by
  cases v with
  | table members => cases h
  | _ =>
    rw [merge]
    intro members hTable
    cases hTable

theorem merge_ofVariable (hPath : path ≠ listPath) (s : String) (under : Setting) :
    merge (ofVariable path s) under = ofVariable path s := by
  obtain ⟨r, hText, -⟩ := exists_respelled hPath s
  exact merge_of_text? hText under

/-! ## What comes back as it was -/

/-- A whole number is no word for a truth value, since it starts with a digit or a minus. -/
theorem not_isTruthWord_intText (n : Int) : ¬ IsTruthWord (Decimal.intText n) := by
  obtain ⟨c, rest, hText, hFirst⟩ : ∃ c rest, (Decimal.intText n).toList = c :: rest ∧
      (c.isDigit = true ∨ c = '-') := by
    cases n with
    | ofNat n =>
      obtain ⟨c, rest, hDigits⟩ := List.exists_cons_of_ne_nil (l := Decimal.natDigits n)
        Nat.toDigits_ne_nil
      have hMem : c ∈ Decimal.natDigits n := hDigits ▸ List.mem_cons_self
      exact ⟨c, rest, String.toList_ofList.trans hDigits, .inl (Decimal.isDigit_of_mem_natDigits hMem)⟩
    | negSucc n => exact ⟨'-', _, String.toList_ofList, .inr rfl⟩
  have hRange : c.toNat ≤ 57 := by
    rcases hFirst with hDigit | rfl
    · exact (Char.isDigit_iff_toNat.1 hDigit).2
    · decide
  -- what comes before the letters is the same in lower case
  have hLower : (Text.lower (Decimal.intText n)).toList.head? = some c := by
    have hSame : c.toLower = c := by
      refine dif_neg fun hUpper => ?_
      have hLetter : 'A'.toNat ≤ c.toNat := UInt32.le_iff_toNat_le.1 hUpper.1
      have hFirstLetter : 'A'.toNat = 65 := rfl
      omega
    rw [Text.lower, hText, Text.lowerChars, Text.lowerChar, if_neg (by omega), if_pos (by omega),
      hSame, String.toList_ofList, List.head?_append, List.head?_cons, Option.some_or]
  rintro (hWord | hWord) <;>
  · rw [hWord] at hLower
    obtain rfl := Option.some.inj hLower
    exact absurd hRange (by decide)

/-- The text that comes of a variable is the one that it holds exactly if that is written as it would
be written anew. -/
theorem respelled_self_iff : Respelled s s ↔ IsKept s := by
  constructor
  · -- a relation of two texts is split with the second one free, for no text fits all its indices
    suffices h : ∀ r, Respelled s r → r = s → IsKept s from fun hSelf => h s hSelf rfl
    intro r hRespelled hSame
    cases hRespelled with
    | yes => exact hSame ▸ .yes
    | no => exact hSame ▸ .no
    | whole noWord reads => exact hSame ▸ .whole reads.2
    | float noWord noWhole reads =>
      refine .other noWord noWhole fun x' hx' => ?_
      rwa [Option.some.inj (hx'.symm.trans reads)]
    | same noWord noWhole noFloat =>
      refine .other noWord noWhole fun x hx => ?_
      rw [noFloat] at hx
      cases hx
  · intro h
    cases h with
    | yes => exact .yes (by decide)
    | no => exact .no (by decide)
    | @whole n fits =>
      exact .whole (not_isTruthWord_intText n) ⟨Decimal.readInt?_intText n, fits⟩
    | other noWord noWhole float =>
      cases hFloat : Decimal.readFloat? s.toList with
      | none => exact .same noWord noWhole hFloat
      | some x =>
        have hRespelled := Respelled.float noWord noWhole hFloat
        rwa [float x hFloat] at hRespelled

end Setting

end ItemComposition
