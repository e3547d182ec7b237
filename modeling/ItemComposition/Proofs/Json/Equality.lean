import ItemComposition.Expr.Eval
import ItemComposition.Proofs.Binary64.WholeNumbers
import ItemComposition.Proofs.RelatedDictionaries

/-!
# Equality of JSON values

Two values are equal up to a relation of numbers if they have the same shape, arrays element by
element and objects key by key, and related numbers wherever one of them has a number. Structural
equality relates numbers of one form and one value. The equality of `==` differs from it on two
numbers only, which it compares as doubles.

## Key results

- `Number.toFloat_beq_iff`, `Number.value_toFloat_of_value_eq`: two numbers as doubles
- `Json.same_iff`: structural equality
- `Json.looseEq_num`, `Json.looseEq_eq_same`: the equality of `==`
-/

namespace ItemComposition

/-! ## Numbers -/

namespace Number

/-- A whole number of 64 bits with or without a sign, or a finite double. -/
inductive Legal : Number → Prop where
  | int {n : Int} : fits n = true → Legal (.int n)
  | float {x : Float} : x.isFinite = true → Legal (.float x)

/-- The exact value. -/
def value : Number → ℚ
  | .int n => n
  | .float x => Binary64.value x

/-- Two numbers stand for the same value. -/
def SameValue (m n : Number) : Prop := m.value = n.value

/-- Two numbers stand for the same value, and both are whole numbers or both are doubles. -/
inductive SameForm : Number → Number → Prop where
  | int {n : Int} : SameForm (.int n) (.int n)
  | float {x y : Float} : SameValue (.float x) (.float y) → SameForm (.float x) (.float y)

variable {m n : Number}

theorem SameForm.sameValue (h : SameForm m n) : SameValue m n := by
  cases h with
  | int => rfl
  | float h => exact h

theorem natAbs_lt_of_fits {n : Int} (h : fits n = true) : n.natAbs < 2 ^ 64 := by
  have hSigned : Word.size (64 - 1) = 2 ^ 63 := rfl
  have hUnsigned : Word.size 64 = 2 ^ 64 := rfl
  simp only [fits, Word.isSigned, Word.isUnsigned, hSigned, hUnsigned, Bool.or_eq_true,
    Bool.and_eq_true, decide_eq_true_eq] at h
  omega

theorem isFinite_toFloat (h : m.Legal) : m.toFloat.isFinite = true := by
  cases h with
  | int h => exact Binary64.isFinite_ofInt (natAbs_lt_of_fits h)
  | float h => exact h

/-- As doubles, numbers are equal if these have the same value. -/
theorem toFloat_beq_iff (hm : m.Legal) (hn : n.Legal) :
    (m.toFloat == n.toFloat) = true ↔ Binary64.value m.toFloat = Binary64.value n.toFloat :=
  Binary64.beq_iff_value (isFinite_toFloat hm) (isFinite_toFloat hn)

/-- Numbers of one value become doubles of one value: either the numbers are the same, or a double
stands for that value. -/
theorem value_toFloat_of_value_eq (hm : m.Legal) (hn : n.Legal) (h : SameValue m n) :
    Binary64.value m.toFloat = Binary64.value n.toFloat := by
  cases hm with
  | @int i hi =>
    cases hn with
    | @int j hj =>
      obtain rfl : i = j := Int.cast_injective (show (i : ℚ) = j from h)
      rfl
    -- a double with the value of a whole number is the one that number becomes
    | @float y hy =>
      exact (Binary64.value_ofInt_of_value (natAbs_lt_of_fits hi) hy h).trans h
  | @float x hx =>
    cases hn with
    | @int j hj =>
      exact h.trans (Binary64.value_ofInt_of_value (natAbs_lt_of_fits hj) hx h.symm).symm
    | @float y hy => exact h

/-- Whole numbers of at most 53 bits do not become the same double. -/
theorem eq_of_value_toFloat {i j : Int} (hi : i.natAbs ≤ 2 ^ 53) (hj : j.natAbs ≤ 2 ^ 53)
    (h : Binary64.value (Number.toFloat (.int i)) = Binary64.value (Number.toFloat (.int j))) :
    i = j := by
  rw [toFloat, toFloat, Binary64.value_ofInt_of_le hi, Binary64.value_ofInt_of_le hj] at h
  exact Int.cast_injective h

theorem same_iff (hm : m.Legal) (hn : n.Legal) : m.same n = true ↔ SameForm m n := by
  constructor
  · intro h
    -- integers and doubles are of two forms, whatever their values
    cases hm with
    | int =>
      cases hn with
      | int =>
        obtain rfl := of_decide_eq_true h
        exact .int
      | float => cases h
    | float hx =>
      cases hn with
      | int => cases h
      | float hy => exact .float ((Binary64.beq_iff_value hx hy).1 h)
  · intro h
    cases h with
    | int => exact decide_eq_true rfl
    | float h =>
      cases hm with
      | float hx =>
        cases hn with
        | float hy => exact (Binary64.beq_iff_value hx hy).2 h

end Number

/-! ## Values -/

namespace Json

/-- All numbers are legal, and the keys of every object ascend. -/
inductive Legal : Json → Prop where
  | null : Legal .null
  | bool {b : Bool} : Legal (.bool b)
  | num {n : Number} : n.Legal → Legal (.num n)
  | str {s : String} : Legal (.str s)
  | arr {items : List Json} : (∀ v ∈ items, Legal v) → Legal (.arr items)
  | obj {members : Dict Json} :
      Dict.Sorted members → (∀ e ∈ members, Legal e.2) → Legal (.obj members)

/-- Equality up to a relation of numbers: arrays element by element, objects key by key. -/
inductive EqualBy (r : Number → Number → Prop) : Json → Json → Prop where
  | null : EqualBy r .null .null
  | bool {b : Bool} : EqualBy r (.bool b) (.bool b)
  | num {m n : Number} : r m n → EqualBy r (.num m) (.num n)
  | str {s : String} : EqualBy r (.str s) (.str s)
  | arr {as bs : List Json} : List.Forall₂ (EqualBy r) as bs → EqualBy r (.arr as) (.arr bs)
  | obj {ms ns : Dict Json} :
      (∀ key, Option.Rel (EqualBy r) (Dict.get? ms key) (Dict.get? ns key)) →
      EqualBy r (.obj ms) (.obj ns)

/-! ## Structural equality -/

theorem sameItems_iff {as bs : List Json} :
    sameItems as bs = true ↔ List.Forall₂ (fun a b => a.same b = true) as bs := by
  induction as generalizing bs with
  | nil => cases bs <;> simp [sameItems]
  | cons a as ih =>
    cases bs with
    | nil => simp [sameItems]
    | cons b bs => rw [sameItems, Bool.and_eq_true, ih, List.forall₂_cons]

theorem sameMembers_iff {ms ns : Dict Json} :
    sameMembers ms ns = true ↔
      List.Forall₂ (Dict.Pairs fun a b => a.same b = true) ms ns := by
  induction ms generalizing ns with
  | nil => cases ns <;> simp [sameMembers]
  | cons e ms ih =>
    obtain ⟨key, a⟩ := e
    cases ns with
    | nil => simp [sameMembers]
    | cons e' ns =>
      obtain ⟨key', b⟩ := e'
      rw [sameMembers, Bool.and_eq_true, Bool.and_eq_true, ih, List.forall₂_cons,
        decide_eq_true_eq]
      rfl

theorem forall₂_imp_of_mem {α : Type*} {r s : α → α → Prop} {as bs : List α}
    (h : ∀ a ∈ as, ∀ b ∈ bs, r a b → s a b) (hr : List.Forall₂ r as bs) :
    List.Forall₂ s as bs := by
  induction hr with
  | nil => exact .nil
  | cons hFirst _ ih =>
    exact .cons (h _ List.mem_cons_self _ List.mem_cons_self hFirst)
      (ih fun a ha b hb => h a (List.mem_cons_of_mem _ ha) b (List.mem_cons_of_mem _ hb))

theorem forall₂_congr_of_mem {α : Type*} {r s : α → α → Prop} {as bs : List α}
    (h : ∀ a ∈ as, ∀ b ∈ bs, (r a b ↔ s a b)) : List.Forall₂ r as bs ↔ List.Forall₂ s as bs :=
  ⟨forall₂_imp_of_mem fun a ha b hb => (h a ha b hb).1,
    forall₂_imp_of_mem fun a ha b hb => (h a ha b hb).2⟩

theorem sizeOf_lt_of_mem_obj {members : Dict Json} {e : String × Json} (h : e ∈ members) :
    sizeOf e.2 < sizeOf (Json.obj members) := by
  have hMember := List.sizeOf_lt_of_mem h
  obtain ⟨key, v⟩ := e
  simp only [Prod.mk.sizeOf_spec, Json.obj.sizeOf_spec] at hMember ⊢
  omega

theorem sizeOf_lt_of_mem_arr {items : List Json} {v : Json} (h : v ∈ items) :
    sizeOf v < sizeOf (Json.arr items) := by
  have hItem := List.sizeOf_lt_of_mem h
  rw [Json.arr.sizeOf_spec]
  omega

theorem kind_eq_of_same {a b : Json} (h : a.same b = true) : a.kind = b.kind := by
  cases a <;> cases b <;> first | rfl | cases h

theorem EqualBy.kind_eq {r : Number → Number → Prop} {a b : Json} (h : EqualBy r a b) :
    a.kind = b.kind := by
  cases h <;> rfl

/-- Structural equality looks at the form of a number, too. -/
theorem same_iff {a b : Json} (ha : a.Legal) (hb : b.Legal) :
    a.same b = true ↔ EqualBy Number.SameForm a b := by
  -- values of different kinds are neither the same nor of one form, so one case of each remains
  by_cases hKind : a.kind = b.kind
  · cases ha with
    | null =>
      cases hb with
      | null => exact ⟨fun _ => .null, fun _ => rfl⟩
      | _ => cases hKind
    | bool =>
      cases hb with
      | bool =>
        rw [same, decide_eq_true_eq]
        exact ⟨fun h => h ▸ .bool, fun h => by cases h; rfl⟩
      | _ => cases hKind
    | num hm =>
      cases hb with
      | num hn =>
        rw [same, Number.same_iff hm hn]
        exact ⟨.num, fun h => by cases h; assumption⟩
      | _ => cases hKind
    | str =>
      cases hb with
      | str =>
        rw [same, decide_eq_true_eq]
        exact ⟨fun h => h ▸ .str, fun h => by cases h; rfl⟩
      | _ => cases hKind
    | @arr as has =>
      cases hb with
      | @arr bs hbs =>
        have hItems : ∀ a ∈ as, ∀ b ∈ bs, (a.same b = true ↔ EqualBy Number.SameForm a b) :=
          fun a ha b hb => same_iff (has a ha) (hbs b hb)
        rw [same, sameItems_iff, forall₂_congr_of_mem hItems]
        exact ⟨.arr, fun h => by cases h; assumption⟩
      | _ => cases hKind
    | @obj ms hSorted hms =>
      cases hb with
      | @obj ns hSorted' hns =>
        have hMembers : ∀ e ∈ ms, ∀ e' ∈ ns,
            (Dict.Pairs (fun a b => a.same b = true) e e' ↔
              Dict.Pairs (EqualBy Number.SameForm) e e') :=
          fun e he e' he' => and_congr_right fun _ => same_iff (hms e he) (hns e' he')
        rw [same, sameMembers_iff, forall₂_congr_of_mem hMembers,
          -- members in the order of their keys are compared in pairs, which is a comparison key by
          -- key
          Dict.forall₂_iff_rel_get? hSorted hSorted']
        exact ⟨.obj, fun h => by cases h; assumption⟩
      | _ => cases hKind
  · exact ⟨fun h => absurd (kind_eq_of_same h) hKind, fun h => absurd h.kind_eq hKind⟩
termination_by a
decreasing_by
  · exact sizeOf_lt_of_mem_arr ha
  · exact sizeOf_lt_of_mem_obj he

/-- Equality up to a relation is equality up to every weaker one. -/
theorem EqualBy.mono {r r' : Number → Number → Prop} (weaker : ∀ m n, r m n → r' m n) {a b : Json}
    (h : EqualBy r a b) : EqualBy r' a b := by
  cases h with
  | null => exact .null
  | bool => exact .bool
  | num h => exact .num (weaker _ _ h)
  | str => exact .str
  | arr h => exact .arr (forall₂_imp_of_mem (fun a _ b _ hItem => hItem.mono weaker) h)
  | @obj ms ns h =>
    refine .obj fun key => ?_
    have hKey := h key
    cases hFirst : Dict.get? ms key with
    | none =>
      rw [hFirst] at hKey
      generalize Dict.get? ns key = second at hKey
      cases hKey
      exact .none
    | some a =>
      -- a value under some key is smaller than the object
      obtain ⟨e, he, rfl⟩ := Dict.exists_mem_of_get? hFirst
      rw [hFirst] at hKey
      generalize Dict.get? ns key = second at hKey
      cases hKey with
      | some hMember => exact .some (hMember.mono weaker)
termination_by a
decreasing_by
  · exact sizeOf_lt_of_mem_arr ‹_›
  · exact sizeOf_lt_of_mem_obj he

/-! ## The equality of `==` -/

theorem looseEq_eq_same {a b : Json} (h : ∀ m n, ¬(a = .num m ∧ b = .num n)) :
    a.looseEq b = a.same b := by
  cases a with
  | num m =>
    cases b with
    | num n => exact absurd ⟨rfl, rfl⟩ (h m n)
    | _ => rfl
  | _ => rfl

theorem looseEq_num_iff {m n : Number} (hm : m.Legal) (hn : n.Legal) :
    (Json.num m).looseEq (.num n) = true ↔ Binary64.value m.toFloat = Binary64.value n.toFloat :=
  Number.toFloat_beq_iff hm hn

/-- Values that are equal in form and value are equal by `==`. -/
theorem looseEq_of_equalBy {a b : Json} (ha : a.Legal) (hb : b.Legal)
    (h : EqualBy Number.SameForm a b) : a.looseEq b = true := by
  by_cases hNumbers : ∃ m n, a = .num m ∧ b = .num n
  · obtain ⟨m, n, rfl, rfl⟩ := hNumbers
    cases ha with
    | num hm =>
      cases hb with
      | num hn =>
        cases h with
        | num h =>
          exact (looseEq_num_iff hm hn).2 (Number.value_toFloat_of_value_eq hm hn h.sameValue)
  · rw [looseEq_eq_same fun m n hBoth => hNumbers ⟨m, n, hBoth⟩]
    exact (same_iff ha hb).2 h

/-- Unless both are numbers, values that are equal by `==` are equal in value. -/
theorem equalBy_of_looseEq {a b : Json} (ha : a.Legal) (hb : b.Legal)
    (hNumbers : ∀ m n, ¬(a = .num m ∧ b = .num n)) (h : a.looseEq b = true) :
    EqualBy Number.SameValue a b := by
  rw [looseEq_eq_same hNumbers] at h
  exact ((same_iff ha hb).1 h).mono fun _ _ => Number.SameForm.sameValue

end Json

end ItemComposition
