import ItemComposition.Composition
import ItemComposition.Instruction.Reader
import Mathlib.Data.List.TakeWhile

/-!
# Gates

A view and an element of a list are guarded by the value under `if`. A gate is meant to be open if
there is no condition or the condition holds, and closed for all else (`Meant`). The gates that are
there differ from that: a value of a wrong type is no condition to them (`Unread`), and a blank text
that is not empty is a condition of an element, which never holds, but not of a view.

## Key results

- `opens_parse_iff`: a text opens a gate if it parses, its identifiers resolve and it is true
- `opens_conditionOf_iff`, `opens_elementCondition_iff`: when the gates are open
- `selected_append_view`, `elementValues_append_element`: what depends on a gate
- `gates_as_meant_iff`: where the gates are as meant, and where they agree
-/

namespace ItemComposition

/-! ## Blank texts -/

namespace Text

theorem trimStart_eq_nil_iff {cs : List Char} : trimStart cs = [] ↔ ∀ c ∈ cs, isBlank c :=
  List.dropWhile_eq_nil_iff

theorem trimEnd_eq_nil_iff {cs : List Char} : trimEnd cs = [] ↔ ∀ c ∈ cs, isBlank c := by
  rw [trimEnd, List.reverse_eq_nil_iff, List.dropWhile_eq_nil_iff]
  simp only [List.mem_reverse]

/-- Trimming leaves nothing of a text of blanks, and of no other. -/
theorem trim_eq_empty_iff {s : String} : trim s = "" ↔ ∀ c ∈ s.toList, isBlank c := by
  rw [trim, String.ofList_eq_empty_iff, trimEnd_eq_nil_iff]
  constructor
  · intro h
    -- what is left at the start begins with a character that is not blank
    rw [← trimStart_eq_nil_iff]
    cases hRest : trimStart s.toList with
    | nil => rfl
    | cons c cs =>
      have hHead := List.head?_dropWhile_not isBlank s.toList
      rw [← trimStart, hRest] at hHead
      simp only [List.head?_cons] at hHead
      rw [h c (by rw [hRest]; exact List.mem_cons_self ..)] at hHead
      cases hHead
  · intro h c hc
    rw [trimStart_eq_nil_iff.2 h] at hc
    cases hc

end Text

/-- A blank is no letter, no digit and no sign of ASCII. -/
theorem Text.toNat_of_isBlank {c : Char} (h : isBlank c) : c.toNat ≤ 0x20 ∨ 0x85 ≤ c.toNat := by
  simp only [isBlank, Bool.or_eq_true, Bool.and_eq_true, decide_eq_true_eq] at h
  omega

theorem Token.isWordStart_of_isBlank {c : Char} (h : Text.isBlank c) : isWordStart c = false := by
  -- blanks are few, and their codes lie outside those of the letters and the underscore
  have hRange := Text.toNat_of_isBlank h
  rw [Bool.eq_false_iff]
  intro hWord
  rcases Bool.or_eq_true_iff.1 hWord with hLetter | hUnderscore
  · rcases Bool.or_eq_true_iff.1 (show (c.isUpper || c.isLower) = true from hLetter) with
      hUpper | hLower
    · obtain ⟨hFirst, hLast⟩ : 'A'.val ≤ c.val ∧ c.val ≤ 'Z'.val := of_decide_eq_true hUpper
      have hLow : 65 ≤ c.toNat := UInt32.le_iff_toNat_le.1 hFirst
      have hHigh : c.toNat ≤ 90 := UInt32.le_iff_toNat_le.1 hLast
      omega
    · obtain ⟨hFirst, hLast⟩ := Bool.and_eq_true_iff.1
        (show (decide ('a'.val ≤ c.val) && decide (c.val ≤ 'z'.val)) = true from hLower)
      have hLow : 97 ≤ c.toNat := UInt32.le_iff_toNat_le.1 (of_decide_eq_true hFirst)
      have hHigh : c.toNat ≤ 122 := UInt32.le_iff_toNat_le.1 (of_decide_eq_true hLast)
      omega
  · obtain rfl := of_decide_eq_true hUnderscore
    exact absurd h (by decide)

/-- No token starts with a blank. -/
theorem Token.next_of_isBlank {c : Char} (h : Text.isBlank c) (rest : List Char) :
    Token.next c rest = .error 0 := by
  -- no branch that reads a word, a number or a text is taken
  have hDigit : c.isDigit = false := by
    have hRange := Text.toNat_of_isBlank h
    rw [Bool.eq_false_iff, ne_eq, Char.isDigit_iff_toNat]
    simp only [Char.reduceToNat]
    omega
  have hQuote : (c = '"' || c = '\'') = false := by
    simp only [Bool.or_eq_false_iff, decide_eq_false_iff_not]
    constructor <;> (rintro rfl; exact absurd h (by decide))
  unfold Token.next
  rw [isWordStart_of_isBlank h, hDigit, hQuote]
  simp only [Bool.false_eq_true, if_false]
  split <;> first | rfl | exact absurd h (by decide)

/-- There are no tokens in a text of blanks. -/
theorem Lexeme.scan_of_blank {cs : List Char} (h : ∀ c ∈ cs, Text.isBlank c) (pos : Nat)
    {ts : List Lexeme} (hScan : scan pos cs = .ok ts) : ts = [] := by
  induction cs generalizing pos with
  | nil =>
    rw [scan] at hScan
    exact (Except.ok.inj hScan).symm
  | cons c cs ih =>
    rw [scan] at hScan
    split at hScan
    · exact ih (fun d hd => h d (List.mem_cons_of_mem c hd)) _ hScan
    · rw [Token.next_of_isBlank (h c (List.mem_cons_self ..))] at hScan
      cases hScan

/-- A blank text is no expression. -/
theorem Expr.parse_of_blank {source : String} (h : Text.trim source = "") (e : Expr) :
    Expr.parse source ≠ .ok e := by
  rw [Expr.parse, Lexeme.ofText]
  split
  · intro h
    cases h
  · next ts hScan =>
    rw [Lexeme.scan_of_blank (Text.trim_eq_empty_iff.1 h) 0 hScan]
    intro h
    cases h

/-! ## Conditions -/

/-- A condition is true if its identifiers resolve first and it then evaluates to true. -/
theorem Expr.evalCondition_eq_true_iff {env : Json} {e : Expr} :
    e.evalCondition env = .ok true ↔
      e.checkIdentifiers env = .ok () ∧ e.eval env = .ok (.bool true) := by
  rw [evalCondition]
  cases e.checkIdentifiers env with
  | error cause => simp
  | ok u =>
    cases e.eval env with
    | error cause => simp
    | ok v => cases v <;> simp

namespace Condition

variable {env : Json}

/-- A text that parses, whose static identifiers resolve, and that is true. -/
def Holds (env : Json) (source : String) : Prop :=
  ∃ e, Expr.parse source = .ok e ∧ e.checkIdentifiers env = .ok () ∧
    e.eval env = .ok (.bool true)

/-- The values under `if` that are meant to open a gate. -/
def Meant (env : Json) : Option Json → Prop
  | none | some .null | some (.bool true) => True
  | some (.str source) => (∀ c ∈ source.toList, Text.isBlank c) ∨ Holds env source
  | some _ => False

/-- A value that is no text and not meant to open a gate. -/
def Unread : Option Json → Prop
  | some (.bool false) | some (.num _) | some (.arr _) | some (.obj _) => True
  | _ => False

/-- A text of blanks that is not empty. -/
def OnlyBlanks : Option Json → Prop
  | some (.str source) => source ≠ "" ∧ ∀ c ∈ source.toList, Text.isBlank c
  | _ => False

theorem not_meant_of_unread {x : Option Json} (h : Unread x) : ¬ Meant env x := by
  unfold Unread at h
  split at h <;> simp [Meant] at *

theorem meant_of_onlyBlanks {x : Option Json} (h : OnlyBlanks x) : Meant env x ∧ ¬ Unread x := by
  unfold OnlyBlanks at h
  split at h
  · exact ⟨.inl h.2, id⟩
  · exact h.elim

/-- A text opens a gate if it parses, its identifiers resolve and it is true. -/
theorem opens_parse_iff {source : String} :
    opens env (some (parse source)) = true ↔ Holds env source := by
  rw [opens, evaluate, parse, Expression.parse]
  cases hParse : Expr.parse source with
  | error cause => simp [Holds, hParse]
  | ok e =>
    simp only [Holds, hParse, Except.ok.injEq, exists_eq_left', ← Expr.evalCondition_eq_true_iff]
    cases e.evalCondition env with
    | error cause => simp
    | ok b => simp

/-- A blank text does not hold. -/
theorem not_holds_of_blank {source : String} (h : ∀ c ∈ source.toList, Text.isBlank c) :
    ¬ Holds env source :=
  fun ⟨e, hParse, _⟩ => Expr.parse_of_blank (Text.trim_eq_empty_iff.2 h) e hParse

/-! ## Gates -/

/-- The gate of a view is open where it is meant to be, and for values that are not read. -/
theorem opens_conditionOf_iff (spec : Dict Json) :
    opens env (Instruction.conditionOf spec) = true ↔
      Meant env (Dict.get? spec "if") ∨ Unread (Dict.get? spec "if") := by
  rw [Instruction.conditionOf, Field.conditionKey]
  cases Dict.get? spec "if" with
  | none => simp [opens, Meant]
  | some x =>
    cases x with
    | str source =>
      simp only [Meant, Unread, or_false]
      by_cases hBlank : Text.trim source = ""
      · -- a blank text is as good as none
        rw [if_pos hBlank]
        exact ⟨fun _ => .inl (Text.trim_eq_empty_iff.1 hBlank), fun _ => rfl⟩
      · rw [if_neg hBlank, opens_parse_iff, or_iff_right (mt Text.trim_eq_empty_iff.2 hBlank)]
    | bool b => cases b <;> simp [opens, Meant, Unread]
    | null | num | arr | obj => simp [opens, Meant, Unread]

/-- The gate of an element is closed for blanks besides. -/
theorem opens_elementCondition_iff (element : Dict Json) :
    opens env (Field.elementCondition element) = true ↔
      Meant env (Dict.get? element "if") ∧ ¬ OnlyBlanks (Dict.get? element "if") ∨
        Unread (Dict.get? element "if") := by
  rw [Field.elementCondition, Field.conditionKey]
  cases Dict.get? element "if" with
  | none => simp [opens, Meant, OnlyBlanks]
  | some x =>
    cases x with
    | str source =>
      simp only [Meant, OnlyBlanks, Unread, or_false]
      -- the empty text is no condition; other blanks are one that never holds
      by_cases hEmpty : source = ""
      · subst hEmpty
        simp [opens]
      · rw [if_neg hEmpty, opens_parse_iff]
        constructor
        · exact fun h => ⟨.inr h, fun hBlank => not_holds_of_blank hBlank.2 h⟩
        · rintro ⟨hBlank | h, hNot⟩
          · exact absurd ⟨hEmpty, hBlank⟩ hNot
          · exact h
    | bool b => cases b <;> simp [opens, Meant, OnlyBlanks, Unread]
    | null | num | arr | obj => simp [opens, Meant, OnlyBlanks, Unread]

end Condition

/-! ## What depends on a gate -/

/-- A document of the kind of views is a view with the names and the condition in its
specification. -/
theorem Instruction.ofDocument_view {document : Json} {e : Envelope}
    (hRead : Envelope.read document = .ok e) (hKind : Kind.read e.kind = .ok .view) :
    ∃ i, ofDocument document = .ok i ∧ i.condition = conditionOf e.spec ∧
      i.body = .view (selectedNames e.spec) := by
  rw [ofDocument, hRead]
  simp only [bind, Except.bind, hKind]
  exact ⟨_, rfl, rfl, rfl⟩

theorem Field.ofElements_append (elements more : List Json) :
    ofElements (elements ++ more) = ofElements elements ++ ofElements more := by
  induction elements with
  | nil => rw [List.nil_append, ofElements, List.nil_append]
  | cons x elements ih =>
    cases x <;> simp only [List.cons_append, ofElements, ih]

namespace Composition

variable {m : Type → Type} [Monad m] [LawfulMonad m] (call : Caller m) (s : Subject)

omit [Monad m] [LawfulMonad m] in
/-- A view selects its templates if its gate is open, wherever it stands. -/
theorem selected_append_view (env : Json) {i : Instruction} {names : List String}
    (hBody : i.body = .view names) (before after : List Instruction) :
    selected env (before ++ i :: after) = selected env before ++
      (if Condition.opens env i.condition then names else []) ++ selected env after := by
  rw [selected, List.flatMap_append, List.flatMap_cons, hBody, List.append_assoc]
  rfl

theorem elementValues_append (elements more : List Element) :
    elementValues call s (elements ++ more) = (do
      let first ← elementValues call s elements
      let rest ← elementValues call s more
      pure (first ++ rest)) := by
  induction elements with
  | nil => simp [elementValues]
  | cons e elements ih =>
    obtain ⟨condition, fields⟩ := e
    rw [List.cons_append, elementValues, elementValues, ih]
    split <;> simp

/-- An element yields the object of its fields if its gate is open, wherever it stands. -/
theorem elementValues_append_element (element : Dict Json) (before after : List Json) :
    elementValues call s (Field.ofElements (before ++ .obj element :: after)) = (do
      let first ← elementValues call s (Field.ofElements before)
      let own ←
        if Condition.opens (scopeOf s.item s.context) (Field.elementCondition element) then do
          let members ← addFields call s []
            ((Field.ofMembers element).filter (!Field.isConditionKey ·.1))
          pure [Json.obj members]
        else pure []
      let rest ← elementValues call s (Field.ofElements after)
      pure (first ++ own ++ rest)) := by
  rw [Field.ofElements_append, elementValues_append, Field.ofElements, elementValues]
  split <;> simp

open Condition

/-- The two gates for one value under `if`. Each differs from what is meant for exactly the values
that are not read, the gate of an element also for blanks; only for these the gates differ. -/
theorem gates_as_meant_iff (x : Option Json) {document : Json} {e : Instruction.Envelope}
    (hRead : Instruction.Envelope.read document = .ok e)
    (hKind : Instruction.Kind.read e.kind = .ok .view) (hView : Dict.get? e.spec "if" = x)
    {element : Dict Json} (hElement : Dict.get? element "if" = x) :
    let env := scopeOf s.item s.context
    let viewOpen := Condition.opens env (Instruction.conditionOf e.spec)
    let elementOpen := Condition.opens env (Field.elementCondition element)
    (∃ i, Instruction.ofDocument document = .ok i ∧ ∀ before after : List Instruction,
      selected env (before ++ i :: after) = selected env before ++
        (if viewOpen then Instruction.selectedNames e.spec else []) ++ selected env after) ∧
    (∀ before after : List Json,
      elementValues call s (Field.ofElements (before ++ .obj element :: after)) = (do
        let first ← elementValues call s (Field.ofElements before)
        let own ←
          if elementOpen then do
            let members ← addFields call s []
              ((Field.ofMembers element).filter (!Field.isConditionKey ·.1))
            pure [Json.obj members]
          else pure []
        let rest ← elementValues call s (Field.ofElements after)
        pure (first ++ own ++ rest))) ∧
    (viewOpen = true ↔ Meant env x ∨ Unread x) ∧
    (elementOpen = true ↔ Meant env x ∧ ¬ OnlyBlanks x ∨ Unread x) ∧
    ((viewOpen = true ↔ Meant env x) ↔ ¬ Unread x) ∧
    ((elementOpen = true ↔ Meant env x) ↔ ¬ Unread x ∧ ¬ OnlyBlanks x) ∧
    (viewOpen = elementOpen ↔ ¬ OnlyBlanks x) := by
  intro env viewOpen elementOpen
  have hViewOpen : viewOpen = true ↔ Meant env x ∨ Unread x :=
    hView ▸ opens_conditionOf_iff e.spec
  have hElementOpen : elementOpen = true ↔ Meant env x ∧ ¬ OnlyBlanks x ∨ Unread x :=
    hElement ▸ opens_elementCondition_iff element
  have hUnread : Unread x → ¬ Meant env x := not_meant_of_unread
  have hBlanks : OnlyBlanks x → Meant env x ∧ ¬ Unread x := meant_of_onlyBlanks
  refine ⟨?_, elementValues_append_element call s element, hViewOpen, hElementOpen, ?_, ?_, ?_⟩
  · obtain ⟨i, hi, hCondition, hBody⟩ := Instruction.ofDocument_view hRead hKind
    refine ⟨i, hi, fun before after => ?_⟩
    rw [selected_append_view env hBody, hCondition]
  -- what is left is propositional: no value is both unread and meant, and blanks are meant
  · rw [hViewOpen]
    grind
  · rw [hElementOpen]
    grind
  · rw [Bool.eq_iff_iff, hViewOpen, hElementOpen]
    grind

/-- For a truth value that is false both gates are open. -/
theorem gates_as_meant_iff_false :
    let document : Json := .obj [("kind", .str "View"), ("spec", .obj [("if", .bool false)])]
    let spec : Dict Json := [("if", .bool false)]
    Instruction.Envelope.read document = .ok ⟨"View", "", [], spec⟩ ∧
      Instruction.Kind.read "View" = .ok .view ∧
      Condition.opens (scopeOf .null .null) (Instruction.conditionOf spec) = true ∧
      Condition.opens (scopeOf .null .null) (Field.elementCondition spec) = true := by
  intro document spec
  have hRead : Instruction.Envelope.read document = .ok ⟨"View", "", [], spec⟩ := rfl
  have hKind : Instruction.Kind.read "View" = .ok .view := rfl
  have hIf : Dict.get? spec "if" = some (.bool false) := rfl
  have hGates := gates_as_meant_iff (m := Id) (fun _ _ _ => .error .cancelled)
    ⟨.null, .null, []⟩ (some (.bool false)) hRead hKind hIf hIf
  exact ⟨hRead, hKind, hGates.2.2.1.2 (.inr trivial), hGates.2.2.2.1.2 (.inr trivial)⟩

/-- A view is selected though its condition is the truth value false, and an element is left out
for a blank that leaves a view open. -/
theorem not_gates_as_meant :
    let env := scopeOf (.obj []) (.obj [])
    let document : Json := .obj [("kind", .str "View"), ("spec", .obj [("if", .bool false),
      ("template", .obj [("templates", .arr [.str "t"])])])]
    (∃ i, Instruction.ofDocument document = .ok i ∧ selected env [i] = ["t"] ∧
      ¬ Meant env (some (.bool false))) ∧
    Condition.opens env (Instruction.conditionOf [("if", .str " ")]) = true ∧
    Condition.opens env (Field.elementCondition [("if", .str " ")]) = false ∧
    Meant env (some (.str " ")) := by
  intro env document
  have hSpace : ∀ c ∈ " ".toList, Text.isBlank c := by
    intro c hc
    obtain rfl := List.mem_singleton.1 hc
    rfl
  have hBlank : Meant env (some (.str " ")) := .inl hSpace
  refine ⟨⟨_, rfl, rfl, id⟩, ?_, ?_, hBlank⟩
  · -- at the instruction a blank text is no condition, at an element it is one that cannot be read
    rw [opens_conditionOf_iff]
    exact .inl hBlank
  · rw [Bool.eq_false_iff, ne_eq, opens_elementCondition_iff]
    rintro (h | h)
    · exact h.2 ⟨by decide, hSpace⟩
    · exact h

end Composition

end ItemComposition
