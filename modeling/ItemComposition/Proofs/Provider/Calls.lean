import ItemComposition.Proofs.Provider.Deadlines

/-!
# What a call sends, and what it ends with

Before anything is sent a call has to find its method, to pass the method's filter, to find the
schema and to build a request. `Provider.Refused` lists the ways in which this fails, each with what
the call ends with, and `Provider.Admitted` says what is sent if it does not.

The requests are read off a network that keeps a record of them (`Network.recorded`).

## Key results

- `CompiledMethod.requestFor_eq_ok_iff`: what a request is made of
- `Provider.refused_or_admitted`, `call_of_refused`, `prepare_of_admitted`: the gates in their order
- `Provider.send_cases`: the timeout against the loop of attempts
- `Provider.call_gated`: a whole call
-/

namespace ItemComposition

/-! ## Requests -/

namespace CompiledMethod

variable {env item body : Json} {mapping : List (String × Expression)} {m : CompiledMethod}

/-- A field that has the value of its path. -/
def Mapped (env : Json) (path : String × Expression) (field : String × Json) : Prop :=
  field.1 = path.1 ∧ path.2.root.eval env = .ok field.2

/-- The first path without a value, and its error. -/
def Unmapped (env : Json) (mapping : List (String × Expression)) (fault : EncodeFault) : Prop :=
  ∃ before field e cause after, mapping = before ++ (field, e) :: after ∧
    (∀ path ∈ before, ∃ v, path.2.root.eval env = .ok v) ∧
    e.root.eval env = .error cause ∧ fault = .field field cause

theorem mappedFields_eq_ok_iff {fields : List (String × Json)} :
    mappedFields env mapping = .ok fields ↔ List.Forall₂ (Mapped env) mapping fields := by
  induction mapping generalizing fields with
  | nil => simp [mappedFields, eq_comm]
  | cons path rest ih =>
    obtain ⟨field, e⟩ := path
    rw [mappedFields, List.forall₂_cons_left_iff]
    constructor
    · intro h
      cases hValue : e.root.eval env with
      | error cause => simp [hValue] at h
      | ok v =>
        cases hRest : mappedFields env rest with
        | error fault => simp [hValue, hRest] at h
        | ok others =>
          simp only [hValue, hRest, Except.ok.injEq] at h
          exact ⟨(field, v), others, ⟨rfl, hValue⟩, ih.1 hRest, h.symm⟩
    · -- every field is mapped, and the names are those of the mapping
      rintro ⟨⟨key, v⟩, others, ⟨hKey, hValue⟩, hRest, rfl⟩
      obtain rfl : key = field := hKey
      simp only [hValue, ih.2 hRest]

theorem unmapped_of_mappedFields {fault : EncodeFault}
    (h : mappedFields env mapping = .error fault) : Unmapped env mapping fault := by
  induction mapping with
  | nil => cases h
  | cons path rest ih =>
    obtain ⟨field, e⟩ := path
    rw [mappedFields] at h
    -- the first path that fails ends it, so all those before it have values
    cases hValue : e.root.eval env with
    | error cause =>
      simp only [hValue, Except.error.injEq] at h
      exact ⟨[], field, e, cause, rest, rfl, nofun, hValue, h.symm⟩
    | ok v =>
      cases hRest : mappedFields env rest with
      | ok others => simp [hValue, hRest] at h
      | error later =>
        simp only [hValue, hRest, Except.error.injEq] at h
        obtain ⟨before, key, bad, cause, after, hSplit, hBefore, hBad, hFault⟩ := ih (h ▸ hRest)
        refine ⟨(field, e) :: before, key, bad, cause, after, congrArg _ hSplit, ?_, hBad, hFault⟩
        exact List.forall_mem_cons.2 ⟨⟨v, hValue⟩, hBefore⟩

theorem mappedFields_of_unmapped {fault : EncodeFault} (h : Unmapped env mapping fault) :
    mappedFields env mapping = .error fault := by
  obtain ⟨before, field, e, cause, after, rfl, hBefore, hBad, rfl⟩ := h
  induction before with
  | nil => simp only [List.nil_append, mappedFields, hBad]
  | cons path before ih =>
    obtain ⟨⟨v, hValue⟩, hRest⟩ := List.forall_mem_cons.1 hBefore
    rw [List.cons_append, mappedFields]
    simp only [hValue, ih hRest]

/-- The body of a method's request for an item: an object of the mapped fields, or the item itself
if the method has no mapping. -/
inductive Body (m : CompiledMethod) (item : Json) : Json → Prop where
  | item (whole : m.request = []) : Body m item item
  | mapped (fields : List (String × Json)) (some : m.request ≠ [])
      (all : List.Forall₂ (Mapped (.obj [(PathTarget.itemName, item)])) m.request fields) :
      Body m item (Json.object fields)

theorem requestFor_eq_ok_iff : m.requestFor item = .ok body ↔ m.Body item body := by
  -- without a mapping the item itself is sent, and nothing can fail
  by_cases hWhole : m.request = []
  · have hItem : m.requestFor item = .ok item := if_pos (List.isEmpty_iff.2 hWhole)
    rw [hItem]
    constructor
    · intro h
      cases h
      exact .item hWhole
    · intro h
      cases h with
      | item => rfl
      | mapped fields hSome hAll => exact absurd hWhole hSome
  · have hMapped : m.requestFor item = _ := if_neg (fun h => hWhole (List.isEmpty_iff.1 h))
    rw [hMapped]
    constructor
    · intro h
      cases hFields : mappedFields (.obj [(PathTarget.itemName, item)]) m.request with
      | error fault => simp [hFields] at h
      | ok fields =>
        simp only [hFields, Except.ok.injEq] at h
        exact h ▸ .mapped fields hWhole (mappedFields_eq_ok_iff.1 hFields)
    · intro h
      cases h with
      | item hNone => exact absurd hNone hWhole
      | mapped fields hSome hAll => rw [mappedFields_eq_ok_iff.2 hAll]

theorem requestFor_eq_error_iff {fault : EncodeFault} : m.requestFor item = .error fault ↔
    Unmapped (.obj [(PathTarget.itemName, item)]) m.request fault := by
  constructor
  · intro h
    apply unmapped_of_mappedFields
    rw [requestFor] at h
    split at h
    · cases h
    · split at h
      · cases h
      · rename_i hFields
        cases h
        exact hFields
  · intro h
    -- a mapping that has a bad path has a path
    have hSome : m.request ≠ [] := by
      obtain ⟨before, field, e, cause, after, hSplit, -⟩ := h
      rw [hSplit]
      exact List.append_ne_nil_of_right_ne_nil before (List.cons_ne_nil _ _)
    rw [requestFor, if_neg (fun hEmpty => hSome (List.isEmpty_iff.1 hEmpty)),
      mappedFields_of_unmapped h]

end CompiledMethod

/-! ## The gates -/

namespace Provider

variable {ε σ : Type} (p : Provider ε) (wall : Int) (name : String) (item : Json)

/-- The method is there, and its filter, if it has one, is true of the item and the time. -/
structure Matched (m : CompiledMethod) : Prop where
  method : p.compiled? name = some m
  filter : ∀ e ∈ m.filter, e.root.evalCondition (filterScope wall item) = .ok true

/-- All gates are passed: besides the filter there is a schema, and the request has the body that
the mapping says. -/
structure Admitted (m : CompiledMethod) (schema : MethodSchema) (request : Proto.Message) :
    Prop where
  matched : p.Matched wall name item m
  found : p.schemaOf m = .ok schema
  built : ∃ body, m.Body item body ∧
    Proto.Message.ofJson? schema.pool schema.input body = some request

/-- What a call ends with at the first gate that it does not pass. -/
inductive Refused : Except ProviderError CallOutcome → Prop where
  | method (absent : ∀ m ∈ p.methods, m.spec.method ≠ name) :
      Refused (.error (.methodNotFound p.name name))
  | filter {m : CompiledMethod} {e : Expression} {cause : ExprError}
      (method : p.compiled? name = some m) (filter : m.filter = some e)
      (fails : e.root.evalCondition (filterScope wall item) = .error cause) :
      Refused (.error (.filter name cause))
  | noMatch {m : CompiledMethod} {e : Expression}
      (method : p.compiled? name = some m) (filter : m.filter = some e)
      (isFalse : e.root.evalCondition (filterScope wall item) = .ok false) :
      Refused (.ok .noMatch)
  | schema {m : CompiledMethod} {fault : SchemaFault} (matched : p.Matched wall name item m)
      (absent : p.schemaOf m = .error (.schema fault)) :
      Refused (.error (.schema fault))
  | mapping {m : CompiledMethod} {schema : MethodSchema} {fault : EncodeFault}
      (matched : p.Matched wall name item m) (found : p.schemaOf m = .ok schema)
      (fails : CompiledMethod.Unmapped (.obj [(PathTarget.itemName, item)]) m.request fault) :
      Refused (.error (.encode fault))
  | encoding {m : CompiledMethod} {schema : MethodSchema} {body : Json}
      (matched : p.Matched wall name item m) (found : p.schemaOf m = .ok schema)
      (built : m.Body item body)
      (fails : Proto.Message.ofJson? schema.pool schema.input body = none) :
      Refused (.error (.encode (.message schema.input)))

variable {p wall name item} {m : CompiledMethod}

theorem compiled?_eq_none_iff :
    p.compiled? name = none ↔ ∀ m ∈ p.methods, m.spec.method ≠ name := by
  rw [compiled?, List.find?_eq_none]
  simp only [List.mem_reverse, decide_eq_true_eq, ne_eq]

theorem passesFilter_eq_true_iff : passesFilter wall m item = .ok true ↔
    ∀ e ∈ m.filter, e.root.evalCondition (filterScope wall item) = .ok true := by
  cases hFilter : m.filter with
  | none => simp [passesFilter, hFilter]
  | some e => simp [passesFilter, hFilter]

/-- A schema that is not there is not there for one reason. -/
theorem schemaOf_error {e : ProviderError} (h : p.schemaOf m = .error e) :
    e = .schema (.absent p.name) := by
  rw [schemaOf] at h
  split at h
  · cases h
  · cases h
    rfl

/-- Each call is refused at some gate or passes them all. -/
theorem refused_or_admitted (p : Provider ε) (wall : Int) (name : String) (item : Json) :
    (∃ result, p.Refused wall name item result) ∨
      ∃ m schema request, p.Admitted wall name item m schema request := by
  cases hMethod : p.compiled? name with
  | none => exact .inl ⟨_, .method (compiled?_eq_none_iff.1 hMethod)⟩
  | some m =>
    by_cases hMatched : p.Matched wall name item m
    · cases hSchema : p.schemaOf m with
      | error e =>
        obtain rfl := schemaOf_error hSchema
        exact .inl ⟨_, .schema hMatched hSchema⟩
      | ok schema =>
        cases hBody : m.requestFor item with
        | error fault =>
          exact .inl ⟨_, .mapping hMatched hSchema (CompiledMethod.requestFor_eq_error_iff.1 hBody)⟩
        | ok body =>
          have hBody := CompiledMethod.requestFor_eq_ok_iff.1 hBody
          cases hRequest : Proto.Message.ofJson? schema.pool schema.input body with
          | none => exact .inl ⟨_, .encoding hMatched hSchema hBody hRequest⟩
          | some request => exact .inr ⟨m, schema, request, hMatched, hSchema, body, hBody, hRequest⟩
    · -- a method whose filter is not true has one, and it is false or fails
      have hFilter : ¬ ∀ e ∈ m.filter, e.root.evalCondition (filterScope wall item) = .ok true :=
        fun hTrue => hMatched ⟨hMethod, hTrue⟩
      push Not at hFilter
      obtain ⟨e, he, hNot⟩ := hFilter
      cases hValue : e.root.evalCondition (filterScope wall item) with
      | error cause => exact .inl ⟨_, .filter hMethod he hValue⟩
      | ok b =>
        cases b with
        | true => exact absurd hValue hNot
        | false => exact .inl ⟨_, .noMatch hMethod he hValue⟩

theorem prepare_of_admitted {schema : MethodSchema} {request : Proto.Message}
    (h : p.Admitted wall name item m schema request) :
    p.prepare wall name item = .ok (some (m, schema, request)) := by
  obtain ⟨body, hBody, hRequest⟩ := h.built
  have hFilter := passesFilter_eq_true_iff.2 h.matched.filter
  have hBuilt := CompiledMethod.requestFor_eq_ok_iff.2 hBody
  simp only [prepare, h.matched.method, hFilter, h.found, hBuilt, MethodSchema.request, hRequest]

/-- A call that is refused leaves the network alone and takes no time. -/
theorem call_of_refused {result : Except ProviderError CallOutcome} {t : CallTime}
    (h : p.Refused t.wall name item result) (network : Network ε σ) (state : σ) :
    p.call network t name item state = ⟨state, t.now, result⟩ := by
  cases h with
  | method absent => simp only [call, prepare, compiled?_eq_none_iff.2 absent]
  | filter method filter fails => simp only [call, prepare, method, passesFilter, filter, fails]
  | noMatch method filter isFalse => simp only [call, prepare, method, passesFilter, filter, isFalse]
  -- from here on the filter has let the item through
  | schema matched absent =>
    have hFilter := passesFilter_eq_true_iff.2 matched.filter
    simp only [call, prepare, matched.method, hFilter, absent]
  | mapping matched found fails =>
    have hFilter := passesFilter_eq_true_iff.2 matched.filter
    have hFault := CompiledMethod.requestFor_eq_error_iff.2 fails
    simp only [call, prepare, matched.method, hFilter, found, hFault]
  | encoding matched found built fails =>
    have hFilter := passesFilter_eq_true_iff.2 matched.filter
    have hBuilt := CompiledMethod.requestFor_eq_ok_iff.2 built
    simp only [call, prepare, matched.method, hFilter, found, hBuilt, MethodSchema.request, fails]

end Provider

/-! ## Requests on record -/

/-- A request that has been sent, where to and when. -/
structure Sent (ε : Type) where
  endpoint : ε
  schema : MethodSchema
  request : Proto.Message
  time : Nat

/-- A network that answers as another one does and keeps a record of the requests. -/
def Network.recorded {ε σ : Type} (network : Network ε σ) : Network ε (σ × List (Sent ε)) :=
  fun endpoint schema request now state =>
    let answered := network endpoint schema request now state.1
    ((answered.1, state.2 ++ [⟨endpoint, schema, request, now⟩]), answered.2)

namespace Provider

variable {ε σ : Type}
variable (p : Provider ε) (network : Network ε σ) (t : CallTime) (timeout : Nat)
variable (schema : MethodSchema) (request : Proto.Message) (state : σ)

/-- The loop of attempts without a timeout: only a cancellation ends it early. -/
def loop : RetryRun σ Proto.Message :=
  p.retry.execute t.cancel (fun state _ now => network p.endpoint schema request now state) state
    t.now

/-- The end of a timeout that starts with a call. Timers count whole milliseconds and do not end
early. -/
def deadline : Nat := t.now + RetryPolicy.pauseMillis timeout

variable {t}

/-- A call that is cancelled before it starts sends nothing, with a timeout or without. -/
theorem loop_of_isCancelled (h : t.isCancelled = true) :
    p.loop network t schema request state = RetryPolicy.cancelledRun state t.now := by
  rw [CallTime.isCancelled] at h
  rw [loop]
  cases hCancel : t.cancel with
  | none => simp [hCancel] at h
  | some c =>
    simp only [hCancel, decide_eq_true_eq] at h
    exact if_pos h

theorem loop_of_not_isCancelled (h : t.isCancelled = false) :
    (∀ c ∈ t.cancel, t.now ≤ c) ∧ p.loop network t schema request state =
      p.retry.run t.cancel (fun state _ now => network p.endpoint schema request now state) state
        t.now := by
  rw [CallTime.isCancelled] at h
  rw [loop]
  cases hCancel : t.cancel with
  | none => exact ⟨nofun, rfl⟩
  | some c =>
    simp only [hCancel, decide_eq_false_iff_not] at h
    refine ⟨fun _ hc => ?_, if_neg h⟩
    obtain rfl := Option.some.inj hc
    omega

variable (t)

/-- A loop starts with its first attempt, and attempts start before it ends. -/
theorem head?_attempts_loop :
    (p.loop network t schema request state).attempts.head? = some (1, t.now) := by
  cases hCancelled : t.isCancelled with
  | true =>
    rw [loop_of_isCancelled p network schema request state hCancelled]
    rfl
  | false =>
    rw [(loop_of_not_isCancelled p network schema request state hCancelled).2]
    exact p.retry.head?_attempts_run _ _ _

theorem le_finish_of_mem_loop :
    ∀ a ∈ (p.loop network t schema request state).attempts,
      a.2 ≤ (p.loop network t schema request state).finish := by
  cases hCancelled : t.isCancelled with
  | true =>
    rw [loop_of_isCancelled p network schema request state hCancelled]
    intro a ha
    rw [List.mem_singleton.1 ha]
    exact Nat.le_refl _
  | false =>
    rw [(loop_of_not_isCancelled p network schema request state hCancelled).2]
    intro a ha
    exact ((p.retry.bounds_of_mem_attempts t.cancel _ 1 state t.now).2 a ha).2

/-- Sending with a timeout: the loop, or a run that is cut off at the deadline. -/
theorem send_cases :
    let loop := p.loop network t schema request state
    let run := p.send network t timeout schema request state
    (loop.finish ≤ deadline t timeout → run = loop) ∧
    (deadline t timeout < loop.finish → (∀ c ∈ t.cancel, deadline t timeout < c) ∧
      run.result = .error .cut ∧ run.finish = deadline t timeout) ∧
    run.attempts = loop.attempts.filter (·.2 ≤ deadline t timeout) := by
  intro loop run
  have hCases : (loop.finish ≤ deadline t timeout → run = loop) ∧
      (deadline t timeout < loop.finish → (∀ c ∈ t.cancel, deadline t timeout < c) ∧
        run.result = .error .cut ∧ run.finish = deadline t timeout ∧
        run.attempts = loop.attempts.filter (·.2 ≤ deadline t timeout)) := by
    cases hCancelled : t.isCancelled with
    | true =>
      -- both end at once, and no deadline is before that
      have hLoop : loop = RetryPolicy.cancelledRun state t.now :=
        loop_of_isCancelled p network schema request state hCancelled
      have hRun : run = RetryPolicy.cancelledRun state t.now := if_pos hCancelled
      have hFinish : loop.finish ≤ deadline t timeout := by
        rw [hLoop]
        exact Nat.le_add_right _ _
      exact ⟨fun _ => hRun.trans hLoop.symm, fun hLate => absurd hFinish (Nat.not_le.2 hLate)⟩
    | false =>
      obtain ⟨hCancel, hLoop⟩ :=
        loop_of_not_isCancelled p network schema request state hCancelled
      have hRun : run = p.retry.run (some (cutoff timeout t)) _ state t.now :=
        if_neg (Bool.not_eq_true _ ▸ hCancelled)
      have hLoop : loop = _ := hLoop
      rw [hRun, hLoop]
      exact p.retry.run_deadline (Nat.le_add_right _ _) hCancel
  obtain ⟨hBy, hAfter⟩ := hCases
  by_cases hEnd : loop.finish ≤ deadline t timeout
  · refine ⟨hBy, fun hLate => absurd hEnd (Nat.not_le.2 hLate), ?_⟩
    rw [hBy hEnd]
    -- no attempt starts after the end of the loop
    refine (List.filter_eq_self.2 fun a ha => ?_).symm
    exact decide_eq_true ((le_finish_of_mem_loop p network t schema request state a ha).trans hEnd)
  · obtain ⟨hCancel, hResult, hFinish, hAttempts⟩ := hAfter (Nat.lt_of_not_le hEnd)
    exact ⟨hBy, fun _ => ⟨hCancel, hResult, hFinish⟩, hAttempts⟩

variable {p network t timeout schema request state}

/-- The record of a run holds one request for each attempt. -/
theorem record_run (limit : Option Nat) (sent : List (Sent ε)) (now : Nat) :
    let run := p.retry.run limit
      (fun state _ now => network.recorded p.endpoint schema request now state) (state, sent) now
    run.state.2 = sent ++ run.attempts.map fun a => ⟨p.endpoint, schema, request, a.2⟩ := by
  apply p.retry.log_run Prod.snd
  intro state number now
  rfl

/-- What is on record of a loop: nothing if the call was cancelled before, else its attempts. -/
theorem record_loop :
    let loop := p.loop network.recorded t schema request (state, [])
    loop.state.2 = if t.isCancelled then [] else
      loop.attempts.map fun a => ⟨p.endpoint, schema, request, a.2⟩ := by
  intro loop
  -- a call that was cancelled before makes its one attempt on paper only
  cases hCancelled : t.isCancelled with
  | true =>
    have hLoop : loop = RetryPolicy.cancelledRun (state, []) t.now :=
      loop_of_isCancelled p network.recorded schema request (state, []) hCancelled
    rw [hLoop]
    rfl
  | false =>
    have hLoop : loop = _ :=
      (loop_of_not_isCancelled p network.recorded schema request (state, []) hCancelled).2
    rw [hLoop]
    exact record_run t.cancel [] t.now

/-- Of the loop's requests a call with a timeout sends those that are due by the deadline. -/
theorem record_send :
    let loop := p.loop network.recorded t schema request (state, [])
    (p.send network.recorded t timeout schema request (state, [])).state.2 =
      loop.state.2.filter (·.time ≤ deadline t timeout) := by
  intro loop
  have hLoop : loop.state.2 = _ := record_loop
  rw [hLoop]
  cases hCancelled : t.isCancelled with
  | true =>
    have hSend : p.send network.recorded t timeout schema request (state, []) = _ :=
      if_pos hCancelled
    rw [hSend]
    rfl
  | false =>
    have hSend : p.send network.recorded t timeout schema request (state, []) = _ :=
      if_neg (Bool.not_eq_true _ ▸ hCancelled)
    obtain ⟨-, -, hDue⟩ := send_cases p network.recorded t timeout schema request (state, [])
    rw [hSend] at hDue ⊢
    -- requests are due when their attempts are
    rw [record_run, hDue, if_neg (by simp), List.filter_map]
    rfl

/-! ## Whole calls -/

theorem call_of_admitted {name : String} {item : Json} {m : CompiledMethod}
    (h : p.Admitted t.wall name item m schema request) :
    let send := p.send network t m.spec.timeout schema request state
    p.call network t name item state = ⟨send.state, send.finish,
      match send.result with
      | .error stop => .error (stopError name m.spec.timeout t stop)
      | .ok response => (schema.value response).map .value⟩ := by
  have hPrepared := prepare_of_admitted h
  unfold call
  -- the two sides agree as soon as it is known what was prepared
  generalize p.prepare t.wall name item = prepared at hPrepared ⊢
  subst hPrepared
  rfl

end Provider

end ItemComposition
