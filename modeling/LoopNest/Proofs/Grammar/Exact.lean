import LoopNest.Proofs.Grammar.Finds

/-!
# Expressions are read exactly

The reader of expressions and the grammar of expressions agree, whatever lies behind an expression.

* `Grammar.expression_exact`: what is read is derived, and what is derived is read.
-/

namespace LoopNest

namespace Grammar

/-- **An expression is read if and only if it is derived.** Whatever the reader of expressions
yields is the tree of a derivation, and the tokens that it took are those of the derivation. For
every derivation whose whole numbers are not too large, and for every token that does not continue
it, whatever lies behind: its tree is read, up to places and the numbers of variables, and the reader
stops at that token. -/
theorem expression_exact :
    (∀ r : Reader, r.Closed → r.Scoped → ∀ x r', expression r = (.ok x, r') →
      ∃ ts : List Token, Derives 1 ts x ∧ r.remaining = ts.map .token ++ r'.remaining) ∧
    (∀ r : Reader, r.Scoped → ∀ (ts : List Token) (x : Expr) (t : Token) (rest : List Item),
      Derives 1 ts x → x.IntegersFit → ¬ Continues ts t →
      r.remaining = ts.map .token ++ .token t :: rest →
      ∃ x' r', expression r = (.ok x', r') ∧ x'.shape = x.shape ∧
        r'.remaining = .token t :: rest) := by
  refine ⟨fun r hclosed hscoped x r' hrun => ?_, fun r hscoped ts x t rest hx hfit ht h => ?_⟩
  · obtain ⟨_, _, ts, htook, hx⟩ := expression_consumes r hclosed hscoped x r' hrun
    exact ⟨ts, hx, htook.remaining⟩
  · have hfaces : r.Faces (ts ++ t :: []) rest := by simpa [Reader.Faces] using h
    obtain ⟨x', r', hrun, _, _, hshape, hfaces'⟩ :=
      expression_finds hx (hx.integersFit hfit) (stops_of_not_continues ht) hfaces hscoped
    exact ⟨x', r', hrun, hshape, hfaces'⟩

/-- Differences associate to the left, and a fault behind them does not matter. -/
theorem expression_exact_difference :
    ∃ (r : Reader) (ts : List Token) (x : Expr) (r' : Reader), expression r = (.ok x, r') ∧
      x.shape = .binary Span.none .sub (.binary Span.none .sub (.var Span.none ⟨0, "a"⟩)
        (.literal Span.none (.int 7))) (.var Span.none ⟨0, "b"⟩) ∧
      r'.remaining = [.token ⟨.symbol .rightParen, Span.none, ")"⟩,
        .fault ⟨.bareExponent, Span.none⟩, .token ⟨.endOfFile, Span.none, ""⟩] ∧
      Derives 1 ts x ∧ r.remaining = ts.map .token ++ r'.remaining := by
  let a : Token := ⟨.identifier, Span.none, "a"⟩
  let b : Token := ⟨.identifier, Span.none, "b"⟩
  let minus : Token := ⟨.symbol .minus, Span.none, "-"⟩
  let seven : Token := ⟨.integer, Span.none, "007"⟩
  let close : Token := ⟨.symbol .rightParen, Span.none, ")"⟩
  let rest : List Item :=
    [.fault ⟨.bareExponent, Span.none⟩, .token ⟨.endOfFile, Span.none, ""⟩]
  let items : List Item := [.token minus, .token seven, .token minus, .token b, .token close]
  let r : Reader := ⟨items ++ rest, a, a, [], {}, .global⟩
  have ha : Derives 10 [a] (.var Span.none ⟨0, a.lexeme⟩) := .name rfl
  have hb : Derives 10 [b] (.var Span.none ⟨0, b.lexeme⟩) := .name rfl
  have hseven : Derives 10 [seven] (.literal Span.none (.int 7)) := .literal (by decide)
  have hminus : BinaryOp.sub.precedence ≠ 1 := by decide
  have hfirst : Derives 6 ([a] ++ minus :: [seven]) (.binary Span.none .sub _ _) :=
    .binary hminus rfl (ha.mono (by decide)) (hseven.mono (by decide))
  have hx : Derives 6 (([a] ++ minus :: [seven]) ++ minus :: [b]) (.binary Span.none .sub _ _) :=
    .binary hminus rfl hfirst (hb.mono (by decide))
  have hclosed : r.Closed :=
    ⟨.token a :: items ++ [.fault ⟨.bareExponent, Span.none⟩], ⟨.endOfFile, Span.none, ""⟩, rfl, rfl⟩
  have hscoped : r.Scoped := ⟨Scopes.wellFormed_global, .initial⟩
  have hstop : ¬ Continues (([a] ++ minus :: [seven]) ++ minus :: [b]) close := by
    rintro (⟨op, h⟩ | h | h | h | ⟨h, _⟩)
    · cases op <;> cases h
    all_goals cases h
  obtain ⟨x, r', hrun, hshape, hremaining⟩ := expression_exact.2 r hscoped _ _ close rest
    (hx.mono (by decide)) (by simp [Expr.IntegersFit, Expr.nodes, maxInteger]) hstop rfl
  obtain ⟨ts, hts, htokens⟩ := expression_exact.1 r hclosed hscoped x r' hrun
  exact ⟨r, ts, x, r', hrun, hshape, hremaining, hts, htokens⟩

end Grammar

end LoopNest
