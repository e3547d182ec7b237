import ItemComposition.Proofs.Expr.Completeness

/-!
# One token of lookahead

A reader that succeeds leaves tokens that cannot continue what it read, and it looks no further than
the first of these. So it reads the same in front of any other tokens that begin alike.

## Key results

- `noAccess_of_binary`, `ends_of_expression`: what a reader leaves
- `unary_eq_ok`, `binary_eq_ok`, `expression_eq_ok`: the phrase that was read, and that it is read
  in front of anything that begins with the same token
-/

namespace ItemComposition.Expr.Parser

open Grammar

variable {finish : Nat} {ts rest rest' : List Lexeme} {e v : Expr} {least : Nat}

/-! ## What the readers leave -/

theorem NoAccess.congr (h : NoAccess rest) (hPeek : peek rest' = peek rest) : NoAccess rest' := by
  unfold NoAccess
  rwa [hPeek]

theorem Stops.congr (h : Stops least rest) (hPeek : peek rest' = peek rest) :
    Stops least rest' := by
  unfold Stops
  rwa [hPeek]

theorem Ends.congr (h : Ends rest) (hPeek : peek rest' = peek rest) : Ends rest' := by
  obtain ⟨hAccess, hStops, hQuestion⟩ := h
  exact ⟨hAccess.congr hPeek, fun least => (hStops least).congr hPeek, by rwa [hPeek]⟩

/-- No operator binds as tightly as a prefix operator. -/
theorem stops_eight (rest : List Lexeme) : Stops 8 rest := fun t op _ _ => by
  have hBounds := precedence_le op
  omega

/-- Before an operator of no level stands none. -/
theorem Stops.all (h : Stops 1 rest) (least : Nat) : Stops least rest := fun t op hPeek hOp => by
  have hLess := h t op hPeek hOp
  have hBounds := precedence_le op
  omega

theorem length_tail_lt {token : Token} (h : peek ts = some token) : ts.tail.length < ts.length := by
  obtain ⟨t, -, hts⟩ := peek_eq_some h
  rw [hts]
  exact Nat.lt_succ_self _

theorem noAccess_of_accessesFrom (h : accessesFrom finish v ts = some (e, rest)) :
    NoAccess rest := by
  -- the loop ends only where there is no access
  induction hn : ts.length using Nat.strongRecOn generalizing ts v with
  | _ n ih =>
    subst hn
    rw [accessesFrom_eq] at h
    split at h
    · next hDot =>
      obtain ⟨name, -, h⟩ := Option.bind_eq_some_iff.1 h
      have hLess := length_tail_lt hDot
      refine ih _ ?_ h rfl
      rw [List.length_tail]
      omega
    · next hNoDot =>
      split at h
      · next hOpen =>
        obtain ⟨key, hKey, h⟩ := Option.bind_eq_some_iff.1 h
        obtain ⟨after, hClose, h⟩ := Option.bind_eq_some_iff.1 h
        obtain ⟨close, -, hAfter⟩ := after?_eq_some hClose
        have hTail := length_tail_lt hOpen
        have hShorter := length_lt_of_outcome hKey
        rw [hAfter, List.length_cons] at hShorter
        exact ih _ (by omega) h rfl
      · next hNoOpen =>
        obtain ⟨-, rfl⟩ := Prod.mk.inj (Option.some.inj h)
        exact ⟨hNoDot, hNoOpen⟩

theorem noAccess_of_unary (h : outcome (unary finish ts) = some (e, rest)) : NoAccess rest := by
  induction hn : ts.length using Nat.strongRecOn generalizing ts e with
  | _ n ih =>
    subst hn
    rw [outcome_unary] at h
    split at h
    · -- an operator in front leaves the rest to its operand, which is shorter
      next hPeek =>
      obtain ⟨a, hOperand, h⟩ := Option.bind_eq_some_iff.1 h
      obtain ⟨-, rfl⟩ := Prod.mk.inj (Option.some.inj h)
      exact ih _ (length_tail_lt hPeek) hOperand rfl
    · split at h
      · next hPeek =>
        obtain ⟨a, hOperand, h⟩ := Option.bind_eq_some_iff.1 h
        obtain ⟨-, rfl⟩ := Prod.mk.inj (Option.some.inj h)
        exact ih _ (length_tail_lt hPeek) hOperand rfl
      · rw [outcome_chain] at h
        obtain ⟨target, -, h⟩ := Option.bind_eq_some_iff.1 h
        exact noAccess_of_accessesFrom h

theorem noAccess_of_binaryFrom (hAccess : NoAccess ts)
    (h : binaryFrom finish least v ts = some (e, rest)) : NoAccess rest := by
  -- a right operand is an operand with a loop of its own
  induction hn : ts.length using Nat.strongRecOn generalizing ts v e least rest with
  | _ n ih =>
    subst hn
    cases ts with
    | nil =>
      rw [binaryFrom_nil] at h
      obtain ⟨-, rfl⟩ := Prod.mk.inj (Option.some.inj h)
      exact hAccess
    | cons t us =>
      rw [binaryFrom_cons] at h
      split at h
      · obtain ⟨-, rfl⟩ := Prod.mk.inj (Option.some.inj h)
        exact hAccess
      · split at h
        · obtain ⟨-, rfl⟩ := Prod.mk.inj (Option.some.inj h)
          exact hAccess
        · obtain ⟨rhs, hRight, h⟩ := Option.bind_eq_some_iff.1 h
          have hShorter := length_lt_of_outcome hRight
          rw [outcome_binary] at hRight
          obtain ⟨lhs, hOperand, hRight⟩ := Option.bind_eq_some_iff.1 hRight
          have hLess := length_lt_of_outcome hOperand
          have hRest := ih _ (Nat.lt_succ_of_lt hLess) (noAccess_of_unary hOperand) hRight rfl
          exact ih _ (Nat.lt_succ_of_lt hShorter) hRest h rfl

theorem noAccess_of_binary (h : outcome (binary finish least ts) = some (e, rest)) :
    NoAccess rest := by
  rw [outcome_binary] at h
  obtain ⟨lhs, hOperand, h⟩ := Option.bind_eq_some_iff.1 h
  exact noAccess_of_binaryFrom (noAccess_of_unary hOperand) h

theorem ends_of_expression (h : outcome (expression finish ts) = some (e, rest)) : Ends rest := by
  induction hn : ts.length using Nat.strongRecOn generalizing ts e with
  | _ n ih =>
    subst hn
    rw [outcome_expression, outcome_binary_zero] at h
    obtain ⟨c, hCondition, h⟩ := Option.bind_eq_some_iff.1 h
    have hShorter := length_lt_of_outcome hCondition
    split at h
    · -- a conditional ends where its last branch does
      next hPeek =>
      obtain ⟨a, hThen, h⟩ := Option.bind_eq_some_iff.1 h
      obtain ⟨after, hColon, h⟩ := Option.bind_eq_some_iff.1 h
      obtain ⟨b, hElse, h⟩ := Option.bind_eq_some_iff.1 h
      obtain ⟨-, rfl⟩ := Prod.mk.inj (Option.some.inj h)
      obtain ⟨colon, -, hAfter⟩ := after?_eq_some hColon
      have hTail := length_tail_lt hPeek
      have hLess := length_lt_of_outcome hThen
      rw [hAfter, List.length_cons] at hLess
      exact ih _ (by omega) hElse rfl
    · next hPeek =>
      obtain ⟨-, rfl⟩ := Prod.mk.inj (Option.some.inj h)
      have hStops := ((sound finish _).binary (Nat.lt_succ_self ts.length) (Nat.le_refl 1)
        (by omega) hCondition).2
      exact ⟨noAccess_of_binary hCondition, hStops.all, hPeek⟩

/-! ## What is read does not depend on more -/

theorem unary_eq_ok {p : Parsed ts Expr} (h : unary finish ts = .ok p) :
    NoAccess p.rest ∧ ∃ used, ts = used ++ p.rest ∧
      Derives .unary (used.map Lexeme.token) p.value := by
  have hRead : outcome (unary finish ts) = some (p.value, p.rest) := congrArg outcome h
  exact ⟨noAccess_of_unary hRead, (sound finish _).unary (Nat.lt_succ_self ts.length) hRead⟩

theorem binary_eq_ok {p : Parsed ts Expr} (pos : 1 ≤ least) (top : least ≤ 7)
    (h : outcome (binary finish least ts) = some (p.value, p.rest)) :
    NoAccess p.rest ∧ Stops least p.rest ∧ ∃ used, ts = used ++ p.rest ∧
      Derives (.binary least) (used.map Lexeme.token) p.value ∧
      ∀ rest', peek rest' = peek p.rest →
        outcome (binary finish least (used ++ rest')) = some (p.value, rest') := by
  have hAccess := noAccess_of_binary h
  obtain ⟨⟨used, hts, hUsed⟩, hStops⟩ :=
    (sound finish _).binary (Nat.lt_succ_self ts.length) pos top h
  refine ⟨hAccess, hStops, used, hts, hUsed, fun rest' hPeek => ?_⟩
  have hNext := hStops.congr hPeek
  rw [complete finish hUsed used rest' least rfl (Nat.le_refl least) (hAccess.congr hPeek)
    (hNext.mono (Nat.le_succ least)), binaryFrom_of_stops finish p.value hNext]

theorem expression_eq_ok {p : Parsed ts Expr} (h : expression finish ts = .ok p) :
    Ends p.rest ∧ ∃ used, ts = used ++ p.rest ∧
      Derives .expression (used.map Lexeme.token) p.value ∧
      ∀ rest', peek rest' = peek p.rest →
        outcome (expression finish (used ++ rest')) = some (p.value, rest') := by
  have hRead : outcome (expression finish ts) = some (p.value, p.rest) := congrArg outcome h
  have hEnds := ends_of_expression hRead
  obtain ⟨used, hts, hUsed⟩ := (sound finish _).expression (Nat.lt_succ_self ts.length) hRead
  exact ⟨hEnds, used, hts, hUsed,
    fun rest' hPeek => complete finish hUsed used rest' rfl (hEnds.congr hPeek)⟩

end ItemComposition.Expr.Parser
