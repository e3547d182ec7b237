import ItemComposition.Proofs.Provider.Calls

/-!
# What an error says about the requests

A call that is refused at a gate sends nothing, and one that passes all gates sends a request unless
it was cancelled before. So the error of a call tells whether anything was sent. Whether it counts
as an error of the configuration tells only a part of it: of the errors at the gates those of a
method or a schema that is missing do, and those of a filter that fails or a request that cannot be
built do not.

## Key results

- `Provider.Refused.isEarly`, `Provider.isEarly_of_admitted`: errors at the gates and behind them
- `Provider.record_of_admitted`: behind the gates something is sent
- `Provider.configuration_iff_nothing_sent`: which errors tell that nothing was sent
-/

namespace ItemComposition

/-- Whether an error is raised at a gate of a call, before any request. -/
def ProviderError.isEarly : ProviderError → Bool
  | filter .. | encode _ => true
  | e => e.isConfiguration

theorem ProviderError.isEarly_iff {e : ProviderError} : e.isEarly = true ↔
    e.isConfiguration = true ∨ (∃ name cause, e = .filter name cause) ∨
      ∃ fault, e = .encode fault := by
  cases e <;> simp [isEarly, isConfiguration]

namespace Provider

variable {ε σ : Type} {p : Provider ε} {network : Network ε σ} {t : CallTime} {name : String}
variable {item : Json} {state : σ} {e : ProviderError}

theorem Refused.isEarly {wall : Int} (h : p.Refused wall name item (.error e)) :
    e.isEarly = true := by
  cases h <;> rfl

theorem isEarly_stopError (timeout : Nat) (stop : RetryStop) :
    (stopError name timeout t stop).isEarly = false := by
  cases stop with
  | terminal | exhausted => rfl
  | cut =>
    -- cut off by a timeout or by a cancellation
    show (cutoffError name timeout t).isEarly = false
    unfold cutoffError
    split
    · rfl
    · split
      · split <;> rfl
      · rfl

/-- Behind the gates there are only errors of the service, of time, and of the response. -/
theorem isEarly_of_admitted {m : CompiledMethod} {schema : MethodSchema} {request : Proto.Message}
    (h : p.Admitted t.wall name item m schema request)
    (failed : (p.call network t name item state).result = .error e) : e.isEarly = false := by
  rw [call_of_admitted h] at failed
  dsimp only at failed
  -- after admission an error comes from the attempts or from the response, and neither is early
  cases hResult : (p.send network t m.spec.timeout schema request state).result with
  | error stop =>
    simp only [hResult, Except.error.injEq] at failed
    exact failed ▸ isEarly_stopError _ stop
  | ok response =>
    simp only [hResult, MethodSchema.value] at failed
    split at failed
    · cases failed
    · cases failed
      rfl

/-- A call that passes all gates sends its first request at once, if it is not cancelled by then. -/
theorem record_of_admitted {m : CompiledMethod} {schema : MethodSchema} {request : Proto.Message}
    (h : p.Admitted t.wall name item m schema request) (live : t.isCancelled = false) :
    ⟨p.endpoint, schema, request, t.now⟩ ∈
      (p.call network.recorded t name item (state, [])).state.2 := by
  have hFirst := head?_attempts_loop p network.recorded t schema request (state, [])
  have hRecord : (p.loop network.recorded t schema request (state, [])).state.2 = _ := record_loop
  rw [live, if_neg Bool.false_ne_true] at hRecord
  rw [call_of_admitted h, record_send, hRecord]
  refine List.mem_filter.2 ⟨List.mem_map.2 ⟨(1, t.now), List.mem_of_mem_head? hFirst, rfl⟩, ?_⟩
  exact decide_eq_true (Nat.le_add_right _ _)

/-- The errors of the gates are those of calls that send nothing. -/
theorem record_eq_nil_iff (live : t.isCancelled = false)
    (failed : (p.call network t name item state).result = .error e) :
    ((p.call network.recorded t name item (state, [])).state.2 = [] ↔
      p.Refused t.wall name item (.error e)) ∧
    (p.Refused t.wall name item (.error e) ↔ e.isEarly = true) := by
  rcases refused_or_admitted p t.wall name item with
    ⟨result, hRefused⟩ | ⟨m, schema, request, hAdmitted⟩
  · -- the gate says what the call ends with
    obtain rfl : result = .error e := by
      rw [call_of_refused hRefused] at failed
      exact failed
    rw [call_of_refused hRefused]
    exact ⟨iff_of_true rfl hRefused, iff_of_true hRefused hRefused.isEarly⟩
  · have hLate := isEarly_of_admitted hAdmitted failed
    have hNot : ¬ p.Refused t.wall name item (.error e) := fun hRefused => by
      simp [hRefused.isEarly] at hLate
    exact ⟨iff_of_false (List.ne_nil_of_mem (record_of_admitted hAdmitted live)) hNot,
      iff_of_false hNot (by simp [hLate])⟩

/-- A call that is not cancelled when it starts and ends with an error: an error of the
configuration tells that nothing was sent. Nothing was sent exactly if the error is one of the
gates, and these are besides the errors of the configuration those of a filter that fails and of a
request that cannot be built. So the class of the error tells whether anything was sent exactly if
it is neither of the two. -/
theorem configuration_iff_nothing_sent (p : Provider ε) (network : Network ε σ) (t : CallTime)
    (name : String) (item : Json) (state : σ) (live : t.isCancelled = false)
    (failed : (p.call network t name item state).result = .error e) :
    let sent := (p.call network.recorded t name item (state, [])).state.2
    (sent = [] ↔ p.Refused t.wall name item (.error e)) ∧
    (sent = [] ↔ e.isConfiguration = true ∨ (∃ method cause, e = .filter method cause) ∨
      ∃ fault, e = .encode fault) ∧
    ((e.isConfiguration = true ↔ sent = []) ↔
      ¬ ((∃ method cause, p.Refused t.wall name item (.error (.filter method cause))) ∨
        ∃ fault, p.Refused t.wall name item (.error (.encode fault)))) := by
  intro sent
  obtain ⟨hSent, hRefused⟩ := record_eq_nil_iff live failed
  have hClass := (hSent.trans hRefused).trans ProviderError.isEarly_iff
  refine ⟨hSent, hClass, fun hTells => ?_,
    fun hNeither => ⟨fun hConfiguration => ?_, fun hNone => ?_⟩⟩
  · -- a refusal is the end of the call, and its error is in the class then
    have hEnd : ∀ early : ProviderError, p.Refused t.wall name item (.error early) →
        early.isConfiguration = true := by
      intro early hEarly
      obtain rfl : early = e := by
        rw [call_of_refused hEarly] at failed
        exact Except.error.inj failed
      exact hTells.2 (hSent.2 hEarly)
    rintro (⟨method, cause, hFilter⟩ | ⟨fault, hEncode⟩)
    · cases hEnd _ hFilter
    · cases hEnd _ hEncode
  · exact hClass.2 (.inl hConfiguration)
  · rcases hClass.1 hNone with hConfiguration | ⟨method, cause, rfl⟩ | ⟨fault, rfl⟩
    · exact hConfiguration
    · exact absurd (.inl ⟨method, cause, hSent.1 hNone⟩) hNeither
    · exact absurd (.inr ⟨fault, hSent.1 hNone⟩) hNeither

namespace FindCards

/-- A method with a second's time and a filter. -/
def find (filter : Expr) : CompiledMethod :=
  ⟨⟨"", "Cards", "find", .item, TimeUnit.second.nanos, some "", [], []⟩, some ⟨"", filter⟩, []⟩

def schema : MethodSchema := ⟨⟨[("Id", [])], [], []⟩, "/Cards/find", "Id", "Id"⟩

/-- A provider of that method. -/
def provider (filter : Expr) (schemas : Option (List (String × MethodSchema))) : Provider Unit :=
  ⟨⟨"", "cards", [], "", 0, false, [], [(find filter).spec], none⟩, [find filter], .standard, (),
    schemas⟩

/-- A service that does not have what is asked for. -/
def gone : Network Unit Unit := fun _ _ _ _ _ => ((), ⟨10, .error ⟨.notFound, "gone"⟩⟩)

def time : CallTime := ⟨0, none, 0⟩

end FindCards

open FindCards in
/-- A call without a schema, one whose filter fails, and one that is answered with an error: the
first two send nothing, and only the first one is an error of the configuration. -/
theorem configuration_iff_nothing_sent_cards :
    let attached := some [("find", schema)]
    let result (p : Provider Unit) := (p.call gone time "find" (.obj []) ()).result
    let sent (p : Provider Unit) := (p.call gone.recorded time "find" (.obj []) ((), [])).state.2
    let detached := provider (.literal (.bool true)) none
    let failing := provider (.ident "nobody") attached
    let answered := provider (.literal (.bool true)) attached
    time.isCancelled = false ∧
    result detached = .error (.schema (.absent "cards")) ∧ sent detached = [] ∧
    result failing = .error (.filter "find" (.unknownIdentifier "nobody")) ∧ sent failing = [] ∧
    result answered = .error (.call ⟨.notFound, "gone"⟩) ∧ sent answered ≠ [] := by
  intro attached result sent detached failing answered
  have live : time.isCancelled = false := rfl
  have hDetached : result detached = .error (.schema (.absent "cards")) := rfl
  have hFailing : result failing = .error (.filter "find" (.unknownIdentifier "nobody")) := rfl
  have hAnswered : result answered = .error (.call ⟨.notFound, "gone"⟩) := rfl
  obtain ⟨-, hDetachedSent, -⟩ :=
    -- the theorem decides each of the three by the error that came out
    configuration_iff_nothing_sent detached gone time "find" (.obj []) () live hDetached
  obtain ⟨-, hFailingSent, -⟩ :=
    configuration_iff_nothing_sent failing gone time "find" (.obj []) () live hFailing
  obtain ⟨-, hAnsweredSent, -⟩ :=
    configuration_iff_nothing_sent answered gone time "find" (.obj []) () live hAnswered
  refine ⟨live, hDetached, hDetachedSent.2 (.inl rfl), hFailing,
    hFailingSent.2 (.inr (.inl ⟨_, _, rfl⟩)), hAnswered, fun hNone => ?_⟩
  rcases hAnsweredSent.1 hNone with h | ⟨_, _, h⟩ | ⟨_, h⟩ <;> cases h

open FindCards in
/-- Not every error that nothing was sent for is one of the configuration, though there was time to
send something. -/
theorem not_configuration_iff_nothing_sent : ¬ ∀ (p : Provider Unit) (network : Network Unit Unit)
    (t : CallTime) (name : String) (item : Json) (e : ProviderError), t.isCancelled = false →
      (∀ m ∈ p.compiled? name, 0 < m.spec.timeout) →
      (p.call network t name item ()).result = .error e →
      (e.isConfiguration = true ↔ (p.call network.recorded t name item ((), [])).state.2 = []) := by
  intro h
  let failing := provider (.ident "nobody") (some [("find", schema)])
  have hTime : ∀ m ∈ failing.compiled? "find", 0 < m.spec.timeout := by
    intro m hm
    obtain rfl : find (.ident "nobody") = m := Option.some.inj hm
    decide
  -- a filter that fails sends nothing, and is no error of the configuration
  have hTells := h failing gone time "find" (.obj []) (.filter "find" (.unknownIdentifier "nobody"))
    rfl hTime rfl
  cases hTells.2 rfl

end Provider

end ItemComposition
