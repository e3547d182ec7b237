import ItemComposition.Proofs.Expr.Subterms

/-!
# Results and the bindings they depend on

Evaluation goes from the values of the parts of an expression to the value of the whole, and what it
finds unknown is met where an identifier, a member or an element is read. So what holds of every such
reading, and is carried on by each step from values to a value, holds of the whole (`eval_compatible`).

A result is decided unless it is that something is unknown. Other bindings do not change a decided
result, as long as they leave the identifiers alone that the expression mentions and that were bound.

## Key results

- `eval_eq`: evaluation as one step after another; `eval_member`, `eval_index` and so on: each kind
- `eval_compatible`: what is carried on from the readings to the whole
- `kept_eval`, `kept_evalCondition`: results that are kept in another environment
- `results_of_bindings`: what a result depends on
-/

namespace ItemComposition.Expr

variable {α β : Type} {env env' : Json} {e : Expr}

/-! ## Step by step -/

section Steps

variable (env : Json) (target key lhs rhs condition onTrue onFalse : Expr)

theorem evalItems_cons (item : Expr) (rest : List Expr) : evalItems env (item :: rest) =
    (item.eval env).bind fun v => (evalItems env rest).bind fun vs => .ok (v :: vs) := by
  rw [evalItems]
  cases item.eval env with
  | error err => rfl
  | ok v => cases evalItems env rest <;> rfl

theorem evalEntries_cons (entry : String × Expr) (rest : List (String × Expr)) :
    evalEntries env (entry :: rest) =
      (entry.2.eval env).bind fun v =>
        (evalEntries env rest).bind fun members => .ok ((entry.1, v) :: members) := by
  rw [evalEntries]
  cases entry.2.eval env with
  | error err => rfl
  | ok v => cases evalEntries env rest <;> rfl

/-- The steps of an evaluation after one another, each up to the first error. The right operand of a
conjunction or a disjunction counts when the left one does not settle the matter. -/
theorem eval_eq (e : Expr) : e.eval env = match e with
    | .literal v => .ok v
    | .ident name => (env.get? name).elim (.error (.unknownIdentifier name)) .ok
    | .member target field => (target.eval env).bind fun base => readField e base field
    | .index target key => (target.eval env).bind fun base => (key.eval env).bind (readIndex e base)
    | .array items => (evalItems env items).bind fun vs => .ok (.arr vs)
    | .object entries => (evalEntries env entries).bind fun members => .ok (.object members)
    | .unary op operand => (operand.eval env).bind (applyUnary op)
    | .binary .and lhs rhs => (lhs.eval env).bind fun a => (truth "&&" a).bind fun b =>
        if b then (rhs.eval env).bind fun v => (truth "&&" v).map .bool else .ok (.bool false)
    | .binary .or lhs rhs => (lhs.eval env).bind fun a => (truth "||" a).bind fun b =>
        if b then .ok (.bool true) else (rhs.eval env).bind fun v => (truth "||" v).map .bool
    | .binary op lhs rhs => (lhs.eval env).bind fun a => (rhs.eval env).bind (applyBinary op a)
    | .conditional condition onTrue onFalse =>
      (condition.eval env).bind fun c => (truth "?:" c).bind fun b =>
        if b then onTrue.eval env else onFalse.eval env := by
  cases e with
  | literal v => rw [eval]
  | ident name =>
    rw [eval]
    dsimp only
    cases env.get? name <;> rfl
  | member target field =>
    rw [eval]
    dsimp only
    cases target.eval env <;> rfl
  | index target key =>
    rw [eval]
    dsimp only
    cases target.eval env with
    | error err => rfl
    | ok base => cases key.eval env <;> rfl
  | array items =>
    rw [eval]
    dsimp only
    cases evalItems env items <;> rfl
  | object entries =>
    rw [eval]
    dsimp only
    cases evalEntries env entries <;> rfl
  | unary op operand =>
    rw [eval]
    dsimp only
    cases operand.eval env <;> rfl
  | binary op lhs rhs =>
    -- all operators but two evaluate both sides; these two look at the first before they go on
    have hTwo : op ≠ .and → op ≠ .or → (binary op lhs rhs).eval env =
        (lhs.eval env).bind fun a => (rhs.eval env).bind (applyBinary op a) := by
      intro hAnd hOr
      rw [eval]
      · cases lhs.eval env with
        | error err => rfl
        | ok a => cases rhs.eval env <;> rfl
      · exact hAnd
      · exact hOr
    cases op with
    | and =>
      rw [eval]
      dsimp only
      cases lhs.eval env with
      | error err => rfl
      | ok a =>
        cases hTruth : truth "&&" a with
        | error err => simp [Except.bind, hTruth]
        | ok b => cases b <;> cases rhs.eval env <;> simp [Except.bind, hTruth]
    | or =>
      rw [eval]
      dsimp only
      cases lhs.eval env with
      | error err => rfl
      | ok a =>
        cases hTruth : truth "||" a with
        | error err => simp [Except.bind, hTruth]
        | ok b => cases b <;> cases rhs.eval env <;> simp [Except.bind, hTruth]
    | _ => exact hTwo nofun nofun
  | conditional condition onTrue onFalse =>
    rw [eval]
    dsimp only
    cases condition.eval env with
    | error err => rfl
    | ok c =>
      cases hTruth : truth "?:" c with
      | error err => simp [Except.bind, hTruth]
      | ok b => cases b <;> simp [Except.bind, hTruth]

theorem eval_ident (name : String) : (ident name).eval env =
    (env.get? name).elim (.error (.unknownIdentifier name)) .ok := eval_eq env _

theorem eval_member (field : String) : (member target field).eval env =
    (target.eval env).bind fun base => readField (.member target field) base field := eval_eq env _

theorem eval_index : (index target key).eval env =
    (target.eval env).bind fun base => (key.eval env).bind (readIndex (.index target key) base) :=
  eval_eq env _

theorem eval_array (items : List Expr) : (array items).eval env =
    (evalItems env items).bind fun vs => .ok (.arr vs) := eval_eq env _

theorem eval_object (entries : List (String × Expr)) : (object entries).eval env =
    (evalEntries env entries).bind fun members => .ok (.object members) := eval_eq env _

theorem eval_unary (op : UnaryOp) (operand : Expr) : (unary op operand).eval env =
    (operand.eval env).bind (applyUnary op) := eval_eq env _

theorem eval_and : (binary .and lhs rhs).eval env =
    (lhs.eval env).bind fun a => (truth "&&" a).bind fun b =>
      if b then (rhs.eval env).bind fun v => (truth "&&" v).map .bool else .ok (.bool false) :=
  eval_eq env _

theorem eval_or : (binary .or lhs rhs).eval env =
    (lhs.eval env).bind fun a => (truth "||" a).bind fun b =>
      if b then .ok (.bool true) else (rhs.eval env).bind fun v => (truth "||" v).map .bool :=
  eval_eq env _

theorem eval_binary {op : BinaryOp} (hAnd : op ≠ .and) (hOr : op ≠ .or) :
    (binary op lhs rhs).eval env =
      (lhs.eval env).bind fun a => (rhs.eval env).bind (applyBinary op a) := by
  rw [eval_eq]
  cases op with
  | and => exact absurd rfl hAnd
  | or => exact absurd rfl hOr
  | _ => rfl

theorem eval_conditional : (conditional condition onTrue onFalse).eval env =
    (condition.eval env).bind fun c => (truth "?:" c).bind fun b =>
      if b then onTrue.eval env else onFalse.eval env := eval_eq env _

end Steps

/-! ## Decided results -/

/-- A value, or an error that is not about something unknown. -/
def Decided (r : Except ExprError α) : Prop := ∀ path, r ≠ .error (.unknownIdentifier path)

@[simp] theorem decided_ok (a : α) : Decided (.ok a) := nofun

@[simp] theorem decided_error_iff {err : ExprError} :
    Decided (.error err : Except ExprError α) ↔ ∀ path, err ≠ .unknownIdentifier path := by
  simp [Decided]

theorem decided_truth (operation : String) (v : Json) : Decided (truth operation v) := by
  cases v <;> simp [truth]

/-- An error that is passed on. -/
theorem Decided.passed {r : Except ExprError α} (h : Decided r) {err : ExprError}
    (error : r = .error err) : Decided (.error err : Except ExprError β) := by
  rw [error, decided_error_iff] at h
  exact decided_error_iff.2 h

theorem Decided.bind {r : Except ExprError α} {f : α → Except ExprError β} (h : Decided r)
    (next : ∀ a, r = .ok a → Decided (f a)) : Decided (r.bind f) := by
  cases r with
  | error err => exact h.passed rfl
  | ok a => exact next a rfl

theorem Decided.map {r : Except ExprError α} (h : Decided r) (f : α → β) : Decided (r.map f) := by
  cases r with
  | error err => exact h.passed rfl
  | ok a => exact decided_ok _

theorem decided_applyUnary (op : UnaryOp) (v : Json) : Decided (applyUnary op v) := by
  cases op with
  | not => cases v <;> simp [applyUnary, truth]
  | negate => cases v <;> simp [applyUnary]

theorem decided_arithmetic (op : BinaryOp) (x y : Float) : Decided (arithmetic op x y) := by
  unfold arithmetic
  split
  · exact decided_ok _
  · exact decided_ok _
  · exact decided_ok _
  · split <;> simp
  · split <;> simp

theorem decided_combine (op : BinaryOp) (a b : Json) : Decided (combine op a b) := by
  unfold combine
  split
  · rename_i x y _ _
    have hArithmetic := decided_arithmetic op x y
    split
    · exact decided_ok _
    · rename_i err hError
      exact hArithmetic.passed hError
  · simp

theorem decided_order (op : BinaryOp) (a b : Json) : Decided (order op a b) := by
  unfold order
  split
  · exact decided_ok _
  · split
    · split <;> simp
    · simp

theorem decided_within (needle haystack : Json) : Decided (within needle haystack) := by
  unfold within
  split <;> simp

/-- Operators find nothing unknown in their operands. -/
theorem decided_applyBinary (op : BinaryOp) (a b : Json) : Decided (applyBinary op a b) := by
  cases op with
  -- an order of two values is decided, or fails for their kinds alone
  | eq | notEq => exact decided_ok _
  | less | lessEq | greater | greaterEq =>
    simp only [applyBinary]
    split
    · exact decided_ok _
    · exact (decided_order _ a b).passed ‹_›
  | contains =>
    simp only [applyBinary]
    split
    · exact decided_ok _
    · exact (decided_within a b).passed ‹_›
  | add =>
    simp only [applyBinary]
    split
    · exact decided_ok _
    · exact decided_combine _ _ _
  | sub | mul | div | rem =>
    simp only [applyBinary]
    exact decided_combine _ a b
  | and =>
    simp only [applyBinary]
    split
    · exact (decided_truth "&&" a).passed ‹_›
    · exact decided_ok _
    · exact (decided_truth "&&" b).map _
  | or =>
    simp only [applyBinary]
    split
    · exact (decided_truth "||" a).passed ‹_›
    · exact decided_ok _
    · exact (decided_truth "||" b).map _

/-! ## From readings to the whole -/

/-- An identifier, or the access to a member or an element. -/
def IsReading : Expr → Prop
  | .ident _ | .member .. | .index .. => True
  | _ => False

/-- A relation between two results that decided results have to themselves, and that is carried on
by what follows on a value. -/
structure Compatible (C : ∀ {α : Type}, Except ExprError α → Except ExprError α → Prop) : Prop where
  decided : ∀ {α} {r : Except ExprError α}, Decided r → C r r
  bind : ∀ {α β} {r r' : Except ExprError α} {f f' : α → Except ExprError β}, C r r' →
    (∀ a, C (f a) (f' a)) → C (r.bind f) (r'.bind f')

section Compatible

variable {C : ∀ {α : Type}, Except ExprError α → Except ExprError α → Prop}

theorem Compatible.items (h : Compatible C) {items : List Expr}
    (parts : ∀ p ∈ items, C (p.eval env) (p.eval env')) :
    C (evalItems env items) (evalItems env' items) := by
  induction items with
  | nil => exact h.decided (decided_ok _)
  | cons item rest ih =>
    rw [evalItems_cons, evalItems_cons]
    have hRest := ih fun p hp => parts p (List.mem_cons_of_mem _ hp)
    exact h.bind (parts item List.mem_cons_self) fun v => h.bind hRest fun vs =>
      h.decided (decided_ok _)

theorem Compatible.entries (h : Compatible C) {entries : List (String × Expr)}
    (parts : ∀ p ∈ entries.map Prod.snd, C (p.eval env) (p.eval env')) :
    C (evalEntries env entries) (evalEntries env' entries) := by
  induction entries with
  | nil => exact h.decided (decided_ok _)
  | cons entry rest ih =>
    rw [evalEntries_cons, evalEntries_cons]
    have hRest := ih fun p hp => parts p (List.mem_cons_of_mem _ hp)
    exact h.bind (parts entry.2 List.mem_cons_self) fun v => h.bind hRest fun members =>
      h.decided (decided_ok _)

/-- What holds of the results of every reading in two environments, if it holds of the parts, holds
of the results of the whole. -/
theorem eval_compatible (h : Compatible C)
    (readings : ∀ p ∈ e.subterms, p.IsReading →
      (∀ q ∈ p.parts, C (q.eval env) (q.eval env')) → C (p.eval env) (p.eval env')) :
    C (e.eval env) (e.eval env') := by
  induction e using parts_induction with
  | step e ih =>
    -- a reading is what the relation is asked about; everything else is put together from its parts
    have hParts : ∀ p ∈ e.parts, C (p.eval env) (p.eval env') := fun p hp =>
      ih p hp fun q hq => readings q (mem_subterms_of_part hp hq)
    cases e with
    | literal v => exact h.decided (decided_ok _)
    | ident | member | index => exact readings _ (mem_subterms_self _) trivial hParts
    | array items =>
      rw [eval_array, eval_array]
      exact h.bind (h.items hParts) fun vs => h.decided (decided_ok _)
    | object entries =>
      rw [eval_object, eval_object]
      exact h.bind (h.entries hParts) fun members => h.decided (decided_ok _)
    | unary op operand =>
      rw [eval_unary, eval_unary]
      exact h.bind (hParts operand (by simp [parts])) fun v => h.decided (decided_applyUnary op v)
    | binary op lhs rhs =>
      have hLeft := hParts lhs (by simp [parts])
      have hRight := hParts rhs (by simp [parts])
      have hTruth : ∀ operation v, C (truth operation v) (truth operation v) := fun operation v =>
        h.decided (decided_truth operation v)
      by_cases hAnd : op = .and
      · subst hAnd
        rw [eval_and, eval_and]
        -- whether the second side is evaluated depends on the first one's truth, the same in both
        refine h.bind hLeft fun a => h.bind (hTruth "&&" a) fun b => ?_
        cases b with
        | false => exact h.decided (decided_ok _)
        | true => exact h.bind hRight fun v => h.decided ((decided_truth "&&" v).map _)
      by_cases hOr : op = .or
      · subst hOr
        rw [eval_or, eval_or]
        refine h.bind hLeft fun a => h.bind (hTruth "||" a) fun b => ?_
        cases b with
        | false => exact h.bind hRight fun v => h.decided ((decided_truth "||" v).map _)
        | true => exact h.decided (decided_ok _)
      rw [eval_binary env lhs rhs hAnd hOr, eval_binary env' lhs rhs hAnd hOr]
      exact h.bind hLeft fun a => h.bind hRight fun b => h.decided (decided_applyBinary op a b)
    | conditional condition onTrue onFalse =>
      rw [eval_conditional, eval_conditional]
      refine h.bind (hParts condition (by simp [parts])) fun c =>
        h.bind (h.decided (decided_truth "?:" c)) fun b => ?_
      cases b with
      | false => exact hParts onFalse (by simp [parts])
      | true => exact hParts onTrue (by simp [parts])

/-- An identifier occurs in an expression, be it where nothing is evaluated. -/
def Mentions (e : Expr) (name : String) : Prop := .ident name ∈ e.subterms

/-- What members and elements are read from settles what is read, so the identifiers settle the
whole. -/
theorem eval_compatible_of_idents (h : Compatible C)
    (refl : ∀ {α : Type} (r : Except ExprError α), C r r)
    (idents : ∀ name, e.Mentions name → C ((ident name).eval env) ((ident name).eval env')) :
    C (e.eval env) (e.eval env') := by
  apply eval_compatible h
  -- with the values of its parts related, a reading other than an identifier reads the same
  intro p hp hReading hParts
  cases p with
  | ident name => exact idents name hp
  | member target field =>
    rw [eval_member, eval_member]
    have hTarget := hParts target (by simp [parts])
    exact h.bind hTarget fun base => refl _
  | index target key =>
    rw [eval_index, eval_index]
    have hTarget := hParts target (by simp [parts])
    have hKey := hParts key (by simp [parts])
    exact h.bind hTarget fun base => h.bind hKey fun k => refl _
  | literal | array | object | unary | binary | conditional => exact hReading.elim

end Compatible

/-! ## Results that are kept -/

/-- The second result is the first one, if that is decided. -/
def Kept {α : Type} (r r' : Except ExprError α) : Prop := Decided r → r' = r

theorem Kept.bind {r r' : Except ExprError α} {f f' : α → Except ExprError β} (h : Kept r r')
    (next : ∀ a, Kept (f a) (f' a)) : Kept (r.bind f) (r'.bind f') := by
  intro hDecided
  cases r with
  | error err =>
    -- the error of the first step is that of both
    have hError : Decided (.error err : Except ExprError α) := hDecided.passed rfl
    rw [h hError]
    rfl
  | ok a =>
    rw [h (decided_ok a)]
    exact next a hDecided

theorem compatible_kept : Compatible Kept := ⟨fun _ _ => rfl, .bind⟩

theorem compatible_eq : Compatible fun r r' => r' = r where
  decided _ := rfl
  bind := by
    intro α β r r' f f' h next
    have hNext : f' = f := funext next
    rw [h, hNext]

/-- The second environment binds what the first one does, as far as an expression mentions it. -/
def Binds (e : Expr) (env env' : Json) : Prop :=
  ∀ name v, e.Mentions name → env.get? name = some v → env'.get? name = some v

theorem Binds.subterm (h : e.Binds env env') {p : Expr} (hp : p ∈ e.subterms) :
    p.Binds env env' :=
  fun name v hName => h name v (mem_subterms_trans hp hName)

/-- A decided result is that in any environment that binds the same. -/
theorem kept_eval (h : e.Binds env env') : Kept (e.eval env) (e.eval env') := by
  apply eval_compatible_of_idents compatible_kept fun _ _ => rfl
  intro name hName
  rw [eval_ident, eval_ident]
  cases hValue : env.get? name with
  | some v =>
    rw [h name v hName hValue]
    exact fun _ => rfl
  | none => exact fun hDecided => absurd rfl (hDecided name)

/-- An expression sees nothing of an environment but the identifiers that it mentions. -/
theorem eval_eq_of_get? (h : ∀ name, e.Mentions name → env'.get? name = env.get? name) :
    e.eval env' = e.eval env := by
  apply eval_compatible_of_idents compatible_eq fun _ => rfl
  intro name hName
  rw [eval_ident, eval_ident, h name hName]

/-! ## Conditions -/

theorem findSome?_congr {xs : List α} {f g : α → Option β} (h : ∀ x ∈ xs, f x = g x) :
    xs.findSome? f = xs.findSome? g := by
  induction xs with
  | nil => rfl
  | cons x xs ih =>
    rw [List.findSome?_cons, List.findSome?_cons, h x List.mem_cons_self,
      ih fun y hy => h y (List.mem_cons_of_mem _ hy)]

/-- The check goes by the results of the static paths. -/
theorem firstMissing?_eq
    (h : ∀ p ∈ e.subterms, p.isStaticPath = true → p.eval env' = p.eval env) :
    e.firstMissing? env' = e.firstMissing? env := by
  apply findSome?_congr
  intro p hp
  by_cases hStatic : p.isStaticPath = true
  · rw [missing?, missing?, h p hp hStatic]
  · simp [missing?, hStatic]

theorem decided_of_missing?_eq_none (hStatic : e.isStaticPath = true)
    (h : e.missing? env = none) : Decided (e.eval env) := by
  intro path hPath
  simp [missing?, hStatic, hPath] at h

theorem checkIdentifiers_eq_ok_iff :
    e.checkIdentifiers env = .ok () ↔ ∀ p ∈ e.subterms, p.missing? env = none := by
  rw [← List.findSome?_eq_none_iff, checkIdentifiers, firstMissing?]
  split <;> simp_all

theorem kept_checkIdentifiers (h : e.Binds env env') :
    Kept (e.checkIdentifiers env) (e.checkIdentifiers env') := by
  intro hDecided
  have hOk : e.checkIdentifiers env = .ok () := by
    unfold checkIdentifiers at hDecided ⊢
    split at hDecided
    · exact absurd rfl (hDecided _)
    · rfl
  -- what was found is decided, so it is found again
  have hMissing := checkIdentifiers_eq_ok_iff.1 hOk
  have hSame : e.firstMissing? env' = e.firstMissing? env := by
    apply firstMissing?_eq
    intro p hp hStatic
    exact kept_eval (h.subterm hp) (decided_of_missing?_eq_none hStatic (hMissing p hp))
  rw [checkIdentifiers, checkIdentifiers, hSame]

/-- The truth value that a condition has as its value. -/
def asBool : Json → Except ExprError Bool
  | .bool b => .ok b
  | v => .error (.notBoolean v)

theorem evalCondition_eq (e : Expr) (env : Json) : e.evalCondition env =
    (e.checkIdentifiers env).bind fun _ => (e.eval env).bind asBool := by
  unfold evalCondition
  cases e.checkIdentifiers env with
  | error err => rfl
  | ok _ =>
    cases e.eval env with
    | error err => rfl
    | ok v => cases v <;> rfl

theorem kept_evalCondition (h : e.Binds env env') :
    Kept (e.evalCondition env) (e.evalCondition env') := by
  rw [evalCondition_eq, evalCondition_eq]
  exact (kept_checkIdentifiers h).bind fun _ => (kept_eval h).bind fun v _ => rfl

theorem checkIdentifiers_eq_of_get?
    (h : ∀ name, e.Mentions name → env'.get? name = env.get? name) :
    e.checkIdentifiers env' = e.checkIdentifiers env := by
  have hSame : e.firstMissing? env' = e.firstMissing? env := by
    apply firstMissing?_eq
    intro p hp _
    exact eval_eq_of_get? fun name hName => h name (mem_subterms_trans hp hName)
  rw [checkIdentifiers, checkIdentifiers, hSame]

/-! ## What a result depends on -/

/-- Take an environment that binds each identifier of an expression that another one binds to the same
value. A value or an error there that is not about something unknown is the result in it too, be it of
the expression or of the condition. In an environment that binds the same of the identifiers of the
expression, every result is the same; so it is with bindings of identifiers that do not occur. -/
theorem results_of_bindings (e : Expr) (env env' : Json) :
    ((∀ name v, e.Mentions name → env.get? name = some v → env'.get? name = some v) →
      (Decided (e.eval env) → e.eval env' = e.eval env) ∧
      (Decided (e.evalCondition env) → e.evalCondition env' = e.evalCondition env)) ∧
    ((∀ name, e.Mentions name → env'.get? name = env.get? name) →
      e.eval env' = e.eval env ∧ e.evalCondition env' = e.evalCondition env) := by
  constructor
  · intro hBinds
    exact ⟨kept_eval hBinds, kept_evalCondition hBinds⟩
  · intro hSame
    have hEval := eval_eq_of_get? hSame
    refine ⟨hEval, ?_⟩
    rw [evalCondition_eq, evalCondition_eq, hEval, checkIdentifiers_eq_of_get? hSame]

/-- The label of the kind of an item, if the item is active or else if a name says so that may be
unbound. -/
def label : Expr :=
  .conditional (.binary .or (.member (.ident "item") "active") (.ident "forced"))
    (.index (.ident "labels") (.member (.ident "item") "kind")) (.ident "unlabelled")

/-- An item is active and the label of its kind is the given one. -/
def hasLabel (text : String) : Expr :=
  .binary .and (.member (.ident "item") "active")
    (.binary .eq (.index (.ident "labels") (.member (.ident "item") "kind")) (.literal (.str text)))

/-- Bindings of an item and of the labels. -/
def labelled : Dict Json :=
  [("item", .obj [("active", .bool true), ("kind", .str "lamp")]),
    ("labels", .obj [("lamp", .str "light")])]

/-- The same bindings and two more. -/
def overlabelled : Dict Json :=
  ("forced", .bool false) :: labelled ++ [("unlabelled", .null)]

theorem results_of_labelled :
    label.eval (.obj overlabelled) = .ok (.str "light") ∧
      (hasLabel "light").evalCondition (.obj overlabelled) = .ok true := by
  -- the larger binding has all that the smaller one has, at these two names
  have hBinds : ∀ e : Expr, ∀ name v, e.Mentions name →
      (Json.obj labelled).get? name = some v → (Json.obj overlabelled).get? name = some v := by
    intro e name v _ hValue
    have hName : name = "item" ∨ name = "labels" := by
      simp only [Json.get?, Dict.get?, labelled, List.find?_cons] at hValue
      grind
    rcases hName with rfl | rfl <;> exact hValue
  have hLabel : label.eval (.obj labelled) = .ok (.str "light") := by rfl
  have hCondition : (hasLabel "light").evalCondition (.obj labelled) = .ok true := by rfl
  have hEval := ((results_of_bindings label (.obj labelled) (.obj overlabelled)).1 (hBinds _)).1
  have hCheck := ((results_of_bindings (hasLabel "light") (.obj labelled)
    (.obj overlabelled)).1 (hBinds _)).2
  rw [hLabel] at hEval
  rw [hCondition] at hCheck
  exact ⟨hEval (decided_ok _), hCheck (decided_ok _)⟩

end ItemComposition.Expr
