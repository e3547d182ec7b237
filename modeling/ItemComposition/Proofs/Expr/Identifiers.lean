import ItemComposition.Proofs.Expr.Bindings

/-!
# The check of the identifiers

A path is a chain of fields and literal keys on an identifier. All paths that occur in an expression
are checked, also those that evaluation would not come to: the check goes through the expression,
parents first and from left to right, and stops at the first path that is unknown. It names the
shortest beginning of that path that has no value.

Where every access is such a path, nothing is left that evaluation could find unknown.

## Key results

- `FirstUnresolved.of_eval`: what an unknown path is reported as
- `missing?_eq_some_iff`: what the check looks for
- `checkIdentifiers_spec`: when the check fails, what it reports, and what it is good for
-/

namespace ItemComposition.Expr

variable {env : Json} {e p q : Expr} {name field : String} {v key : Json}

/-! ## Paths -/

/-- A chain of fields and literal keys on an identifier. -/
inductive Path : Expr → Prop
  | ident (name : String) : Path (.ident name)
  | member {target : Expr} (h : Path target) (field : String) : Path (.member target field)
  | index {target : Expr} (h : Path target) (key : Json) : Path (.index target (.literal key))

theorem isStaticPath_iff : e.isStaticPath = true ↔ Path e := by
  constructor
  · intro h
    induction e using parts_induction with
    | step e ih =>
      cases e with
      | ident name => exact .ident name
      | member target field =>
        exact .member (ih target (by simp [parts]) (by simpa [isStaticPath] using h)) field
      | index target key =>
        cases key with
        -- an index may be any literal, and nothing that has to be evaluated
        | literal key =>
          exact .index (ih target (by simp [parts]) (by simpa [isStaticPath] using h)) key
        | _ => simp [isStaticPath] at h
      | _ => simp [isStaticPath] at h
  · intro h
    induction h with
    | ident name => rfl
    | member h field ih => simpa [isStaticPath] using ih
    | index h key ih => simpa [isStaticPath] using ih

/-- The first path is the second one without some of its last fields and keys, or with all. -/
inductive Begins (q : Expr) : Expr → Prop
  | self : Begins q q
  | member {target : Expr} (h : Begins q target) (field : String) : Begins q (.member target field)
  | index {target : Expr} (h : Begins q target) (key : Expr) : Begins q (.index target key)

/-- What a value is read from has a value. -/
theorem Begins.value (h : Begins q p) (hValue : p.eval env = .ok v) : ∃ w, q.eval env = .ok w := by
  induction h generalizing v with
  | self => exact ⟨v, hValue⟩
  | member h field ih =>
    rename_i target
    rw [eval_member] at hValue
    -- if the target failed, so would the whole path
    cases hTarget : target.eval env with
    | error err =>
      rw [hTarget] at hValue
      cases hValue
    | ok base => exact ih hTarget
  | index h key ih =>
    rename_i target
    rw [eval_index] at hValue
    cases hTarget : target.eval env with
    | error err =>
      rw [hTarget] at hValue
      cases hValue
    | ok base => exact ih hTarget

/-- A beginning of a path is unknown, and all that it is read from has a value. -/
structure FirstUnresolved (env : Json) (p q : Expr) : Prop where
  begins : Begins q p
  unknown : q.eval env = .error (.unknownIdentifier q.describe)
  resolved : ∀ q', Begins q' q → q' ≠ q → ∃ w, q'.eval env = .ok w

/-- A reader of a member finds nothing unknown but the path that it is told to report. -/
theorem readField_eq_unknown {path : Expr} {base : Json}
    (h : readField path base field = .error (.unknownIdentifier name)) : name = path.describe := by
  unfold readField at h
  split at h
  · split at h
    · cases h
    · injection h with h
      injection h with h
      exact h.symm
  · injection h with h
    cases h

theorem readIndex_eq_unknown {path : Expr} {base : Json}
    (h : readIndex path base key = .error (.unknownIdentifier name)) : name = path.describe := by
  unfold readIndex at h
  split at h
  · exact readField_eq_unknown h
  · -- what an item of an array or a missing one reports is another error
    unfold readItem at h
    split at h
    · dsimp only at h
      split at h
      · split at h
        · cases h
        · injection h with h
          cases h
      · injection h with h
        cases h
    · injection h with h
      cases h
  · injection h with h
    cases h

/-- What an unknown path is reported as: its shortest beginning without a value. -/
theorem FirstUnresolved.of_eval (hPath : Path p)
    (h : p.eval env = .error (.unknownIdentifier name)) :
    ∃ q, FirstUnresolved env p q ∧ name = q.describe := by
  induction hPath with
  | ident other =>
    have hName : name = other := by
      rw [eval_ident] at h
      cases hValue : env.get? other with
      | some v =>
        rw [hValue] at h
        cases h
      | none =>
        rw [hValue] at h
        injection h with h
        injection h with h
        exact h.symm
    subst hName
    refine ⟨.ident name, ⟨.self, h, fun q' hBegins hNe => ?_⟩, rfl⟩
    cases hBegins
    exact absurd rfl hNe
  -- the path fails first in its target, or the target has a value and the last step fails
  | @member target _ field ih =>
    have hEval := h
    rw [eval_member] at h
    cases hTarget : target.eval env with
    | error err =>
      rw [hTarget] at h
      injection h with h
      rw [h] at hTarget
      obtain ⟨q, hFirst, hName⟩ := ih hTarget
      exact ⟨q, ⟨.member hFirst.begins field, hFirst.unknown, hFirst.resolved⟩, hName⟩
    | ok base =>
      rw [hTarget] at h
      have hName := readField_eq_unknown h
      rw [hName] at hEval
      refine ⟨_, ⟨.self, hEval, fun q' hBegins hNe => ?_⟩, hName⟩
      cases hBegins with
      | self => exact absurd rfl hNe
      | member hBegins => exact hBegins.value hTarget
  | @index target _ key ih =>
    have hEval := h
    rw [eval_index] at h
    cases hTarget : target.eval env with
    | error err =>
      rw [hTarget] at h
      injection h with h
      rw [h] at hTarget
      obtain ⟨q, hFirst, hName⟩ := ih hTarget
      exact ⟨q, ⟨.index hFirst.begins _, hFirst.unknown, hFirst.resolved⟩, hName⟩
    | ok base =>
      rw [hTarget] at h
      have hName := readIndex_eq_unknown h
      rw [hName] at hEval
      refine ⟨_, ⟨.self, hEval, fun q' hBegins hNe => ?_⟩, hName⟩
      cases hBegins with
      | self => exact absurd rfl hNe
      | index hBegins => exact hBegins.value hTarget

/-! ## The check -/

theorem missing?_eq_some_iff :
    p.missing? env = some name ↔ Path p ∧ p.eval env = .error (.unknownIdentifier name) := by
  rw [← isStaticPath_iff, missing?]
  split
  · split <;> simp_all
  · simp_all

theorem missing?_eq_none_iff : p.missing? env = none ↔ (Path p → Decided (p.eval env)) := by
  rw [Option.eq_none_iff_forall_ne_some]
  constructor
  · intro h hPath name hName
    exact h name (missing?_eq_some_iff.2 ⟨hPath, hName⟩)
  · intro h name hName
    obtain ⟨hPath, hEval⟩ := missing?_eq_some_iff.1 hName
    exact h hPath name hEval

theorem checkIdentifiers_eq_error_iff {err : ExprError} :
    e.checkIdentifiers env = .error err ↔
      ∃ name, err = .unknownIdentifier name ∧ e.firstMissing? env = some name := by
  unfold checkIdentifiers
  cases e.firstMissing? env with
  | none => simp
  | some name => simp [eq_comm]

/-- If every access is a path and no path is unknown, evaluation finds nothing unknown. -/
theorem decided_eval_of_paths
    (accesses : ∀ p ∈ e.subterms, p.IsReading → Path p)
    (h : ∀ p ∈ e.subterms, Path p → Decided (p.eval env)) : Decided (e.eval env) := by
  have hCompatible : Compatible fun r _ => Decided r := {
    decided := id
    bind := fun h next => h.bind fun a _ => next a }
  apply @eval_compatible env env e _ hCompatible
  intro p hp hReading _
  exact h p hp (accesses p hp hReading)

/-- The check succeeds exactly when no path that occurs anywhere in an expression is unknown. When it
fails, it is with the error of the path at the least position that is unknown, and that error names
the shortest beginning of the path without a value. When it succeeds and all accesses of the
expression are paths, evaluation meets nothing unknown. -/
theorem checkIdentifiers_spec (e : Expr) (env : Json) :
    (e.checkIdentifiers env = .ok () ↔
      ∀ pos p, e.at? pos = some p → Path p → Decided (p.eval env)) ∧
    (∀ err, e.checkIdentifiers env = .error err ↔
      ∃ pos p q, e.at? pos = some p ∧ Path p ∧ p.eval env = .error err ∧
        FirstUnresolved env p q ∧ err = .unknownIdentifier q.describe ∧
        ∀ pos' < pos, ∀ p', e.at? pos' = some p' → Path p' → Decided (p'.eval env)) ∧
    (e.checkIdentifiers env = .ok () →
      (∀ pos p, e.at? pos = some p → p.IsReading → Path p) → Decided (e.eval env)) := by
  -- the check looks at the first path without a value, in the order of the positions
  have hOk : e.checkIdentifiers env = .ok () ↔
      ∀ pos p, e.at? pos = some p → Path p → Decided (p.eval env) := by
    rw [checkIdentifiers_eq_ok_iff]
    constructor
    · intro h pos p hPos
      exact missing?_eq_none_iff.1 (h p (mem_subterms_iff.2 ⟨pos, hPos⟩))
    · intro h p hp
      obtain ⟨pos, hPos⟩ := mem_subterms_iff.1 hp
      exact missing?_eq_none_iff.2 (h pos p hPos)
  refine ⟨hOk, fun err => ?_, fun hCheck hAccesses => ?_⟩
  · rw [checkIdentifiers_eq_error_iff]
    constructor
    · rintro ⟨name, rfl, hFirst⟩
      obtain ⟨pos, p, hPos, hp, hBefore⟩ := findSome?_subterms_eq_some_iff.1 hFirst
      obtain ⟨hPath, hEval⟩ := missing?_eq_some_iff.1 hp
      obtain ⟨q, hUnresolved, rfl⟩ := FirstUnresolved.of_eval hPath hEval
      refine ⟨pos, p, q, hPos, hPath, hEval, hUnresolved, rfl, fun pos' hLt p' hPos' => ?_⟩
      exact missing?_eq_none_iff.1 (hBefore pos' hLt p' hPos')
    · rintro ⟨pos, p, q, hPos, hPath, hEval, hUnresolved, rfl, hBefore⟩
      refine ⟨q.describe, rfl, findSome?_subterms_eq_some_iff.2 ⟨pos, p, hPos, ?_, ?_⟩⟩
      · exact missing?_eq_some_iff.2 ⟨hPath, hEval⟩
      · exact fun pos' hLt p' hPos' => missing?_eq_none_iff.2 (hBefore pos' hLt p' hPos')
  · apply decided_eval_of_paths
    · intro p hp
      obtain ⟨pos, hPos⟩ := mem_subterms_iff.1 hp
      exact hAccesses pos p hPos
    · intro p hp
      obtain ⟨pos, hPos⟩ := mem_subterms_iff.1 hp
      exact hOk.1 hCheck pos p hPos

/-- An item is active, or else something that is read from it holds. -/
def activeOr (item field : String) : Expr :=
  .binary .or (.member (.ident item) "active") (.member (.member (.ident item) field) "on")

/-- What evaluation skips is checked all the same. -/
theorem checkIdentifiers_activeOr :
    (activeOr "item" "lamp").eval (.obj labelled) = .ok (.bool true) ∧
      (∃ pos p q, (activeOr "item" "lamp").at? pos = some p ∧ Path p ∧
        FirstUnresolved (.obj labelled) p q ∧ q.describe = "item.lamp") ∧
      Decided ((activeOr "item" "lamp").eval
        (.obj [("item", .obj [("active", .bool false), ("lamp", .obj [("on", .bool true)])])])) := by
  refine ⟨by rfl, ?_, ?_⟩
  · have hCheck : (activeOr "item" "lamp").checkIdentifiers (.obj labelled) =
        .error (.unknownIdentifier "item.lamp") := by rfl
    obtain ⟨pos, p, q, hPos, hPath, -, hUnresolved, hName, -⟩ :=
      ((checkIdentifiers_spec _ _).2.1 _).1 hCheck
    injection hName with hName
    exact ⟨pos, p, q, hPos, hPath, hUnresolved, hName.symm⟩
  · apply (checkIdentifiers_spec _ _).2.2 (by rfl)
    intro pos p hPos hReading
    have hp := mem_subterms_iff.2 ⟨pos, hPos⟩
    simp only [activeOr, subterms, List.cons_append, List.mem_cons, List.nil_append,
      List.not_mem_nil, or_false] at hp
    -- all readings of this condition are paths
    rcases hp with rfl | rfl | rfl | rfl | rfl | rfl
    · exact hReading.elim
    · exact .member (.ident _) _
    · exact .ident _
    · exact .member (.member (.ident _) _) _
    · exact .member (.ident _) _
    · exact .ident _

end ItemComposition.Expr
