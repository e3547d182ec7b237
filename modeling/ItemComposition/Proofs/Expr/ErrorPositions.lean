import Mathlib
import ItemComposition.Proofs.Expr.Blocked

/-!
# Where syntax errors point

A syntax error in a text that has tokens points at one of them or at the end. The tokens before the
place can be completed to an expression, and no more tokens can: not with the token there, and if
the place is the end, not by the text alone.

## Key results

- `accepted_iff`: acceptance does not depend on where the tokens stand
- `ofTokens_eq_error`: the place of an error, as tokens before it and after it
- `position_of_parse_error`: whole texts
-/

namespace ItemComposition.Expr.Parser

open Grammar

variable {finish : Nat} {ts : List Lexeme} {err : SyntaxError}

/-- The parser accepts the tokens in some text. -/
def Accepted (w : List Token) : Prop :=
  ∃ finish ts e, ts.map Lexeme.token = w ∧ Expr.ofTokens finish ts = .ok e

theorem accepted_iff {w : List Token} : Accepted w ↔ ∃ e, Derives .expression w e := by
  constructor
  · rintro ⟨finish, ts, e, rfl, h⟩
    exact ⟨e, (outcome_expression_eq_some_iff finish).1 ((ofTokens_eq_ok finish).1 h)⟩
  · rintro ⟨e, h⟩
    have hTokens : (w.map fun t => (⟨t, 0⟩ : Lexeme)).map Lexeme.token = w := by
      rw [List.map_map]
      exact List.map_id w
    exact ⟨0, _, e, hTokens,
      (ofTokens_eq_ok 0).2 ((outcome_expression_eq_some_iff 0).2 (hTokens.symm ▸ h))⟩

/-- The parser fails at a place that the tokens before it reach, and no tokens that begin with the
one there complete them. -/
theorem ofTokens_eq_error (hSome : ts ≠ []) (h : Expr.ofTokens finish ts = .error err) :
    ∃ before after, ts = before ++ after ∧ err.position = position finish after ∧
      (∃ more, Accepted (before.map Lexeme.token ++ more)) ∧
      ∀ after', peek after' = peek after → ¬Accepted ((before ++ after').map Lexeme.token) := by
  have hRejected : ∀ {us : List Lexeme}, (∀ e, outcome (expression finish us) ≠ some (e, [])) →
      ¬Accepted (us.map Lexeme.token) := by
    intro us hNone hAccepted
    obtain ⟨e, hDerives⟩ := accepted_iff.1 hAccepted
    exact hNone e ((outcome_expression_eq_some_iff finish).2 hDerives)
  rw [Expr.ofTokens] at h
  · split at h
    · next hError =>
      cases h
      obtain ⟨before, after, hts, hPosition, ⟨more, e, hMore⟩, hNone⟩ :=
        blocked_expression (exact ts.length) hError
      refine ⟨before, after, hts, hPosition, ⟨more, accepted_iff.2 ⟨e, hMore⟩⟩,
        fun after' hPeek => hRejected fun e hRead => ?_⟩
      rw [show outcome (expression finish (before ++ after')) = none from hNone after' hPeek]
        at hRead
      cases hRead
    · next p hRead =>
      obtain ⟨-, used, hts, hUsed, hSame⟩ := expression_eq_ok hRead
      split at h
      · cases h
      · next t rest hRest =>
        cases h
        refine ⟨used, p.rest, hts, by rw [hRest]; rfl, ⟨[], ?_⟩,
          fun after' hPeek => hRejected fun e hAll => ?_⟩
        · rw [List.append_nil]
          exact accepted_iff.2 ⟨p.value, hUsed⟩
        · -- what follows is left over
          rw [hSame after' hPeek] at hAll
          obtain ⟨-, rfl⟩ := Prod.mk.inj (Option.some.inj hAll)
          rw [hRest] at hPeek
          cases hPeek
  · exact hSome

/-- A syntax error in a text that has tokens points at the first token that no accepted tokens go
on with, or at the end if more tokens could follow all of them. -/
theorem position_of_parse_error {source : String} {ts : List Lexeme} {err : ExprError}
    (hTokens : Lexeme.ofText source = .ok ts) (hSome : ts ≠ [])
    (h : Expr.parse source = .error err) :
    ∃ e, err = .syntaxError e ∧
      ((∃ before t after, ts = before ++ t :: after ∧ e.position = t.start ∧
          (∃ more, Accepted (before.map Lexeme.token ++ more)) ∧
          ∀ more, ¬Accepted ((before ++ [t]).map Lexeme.token ++ more)) ∨
        (e.position = source.utf8ByteSize ∧
          ∃ more, more ≠ [] ∧ Accepted (ts.map Lexeme.token ++ more))) := by
  rw [Expr.parse, hTokens] at h
  simp only at h
  split at h
  · next e hError =>
    cases h
    obtain ⟨before, after, hts, hPosition, ⟨more, hMore⟩, hNone⟩ := ofTokens_eq_error hSome hError
    refine ⟨e, rfl, ?_⟩
    -- the words read are the front of an expression; with nothing behind them the text is too
    -- short, and else the next word is one that cannot follow
    cases after with
    | nil =>
      rw [List.append_nil] at hts
      subst hts
      refine .inr ⟨hPosition, more, ?_, hMore⟩
      rintro rfl
      exact hNone [] rfl (by simpa using hMore)
    | cons t rest =>
      refine .inl ⟨before, t, rest, hts, hPosition, ⟨more, hMore⟩, fun more' hAccepted => ?_⟩
      refine hNone (t :: more'.map fun u => ⟨u, 0⟩) rfl ?_
      simpa [Function.comp_def] using hAccepted
  · cases h

/-- A sign where an operand belongs. -/
theorem position_of_parse_error_operand :
    ∃ ts err, Lexeme.ofText "a + * b" = .ok ts ∧ ts ≠ [] ∧ Expr.parse "a + * b" = .error err ∧
      ∃ e, err = .syntaxError e ∧ e.position = 4 ∧
        ((∃ before t after, ts = before ++ t :: after ∧ e.position = t.start ∧
            (∃ more, Accepted (before.map Lexeme.token ++ more)) ∧
            ∀ more, ¬Accepted ((before ++ [t]).map Lexeme.token ++ more)) ∨
          (e.position = "a + * b".utf8ByteSize ∧
            ∃ more, more ≠ [] ∧ Accepted (ts.map Lexeme.token ++ more))) := by
  have hTokens : Lexeme.ofText "a + * b" =
      .ok [⟨.ident "a", 0⟩, ⟨.plus, 2⟩, ⟨.star, 4⟩, ⟨.ident "b", 6⟩] := by cbv
  have hError : Expr.parse "a + * b" = .error (.syntaxError ⟨4, .unexpected .star⟩) := by cbv
  obtain ⟨e, hEq, hPosition⟩ := position_of_parse_error hTokens (by simp) hError
  cases hEq
  exact ⟨_, _, hTokens, by simp, hError, _, rfl, rfl, hPosition⟩

end ItemComposition.Expr.Parser
