import LoopNest.Proofs.Grammar.Derives

/-!
# Relations with the rules of expressions

The grammar of expressions puts trees together from those of their parts, and their spans with them.
What every such step keeps, holds of all expressions that are read.

* `Grammar.Rules`: a relation between tokens and trees that every step keeps.
* `Grammar.Rules.derives`: so does the grammar itself.
* `Grammar.Rules.joinLeft`, `Grammar.Rules.joinRight`, `Grammar.Rules.withOperatorsBefore`,
  `Grammar.Rules.withSuffixes`: many steps, one after the other.
-/

namespace LoopNest

namespace Grammar

open LoopNest.Expr

/-- A relation between levels, tokens and trees that is kept where a tree is put together. Whole
numbers are not too large. -/
structure Rules (R : Nat → List Token → Expr → Prop) : Prop where
  tighter {level : Nat} {ts : List Token} {x : Expr} (h : R (level + 1) ts x) : R level ts x
  assignment {ts us : List Token} {t : Token} {op : BinaryOp} {l r : Expr}
    (hop : op.precedence = 1) (ht : t.kind = .symbol op.symbol) (hl : R 2 ts l) (hr : R 1 us r) :
    R 1 (ts ++ t :: us) (l.join op r)
  binary {ts us : List Token} {t : Token} {op : BinaryOp} {l r : Expr} (hop : op.precedence ≠ 1)
    (ht : t.kind = .symbol op.symbol) (hl : R op.precedence ts l)
    (hr : R (op.precedence + 1) us r) : R op.precedence (ts ++ t :: us) (l.join op r)
  before {ts : List Token} {t : Token} {op : UnaryOp} {x : Expr} (ht : t.kind = .symbol op.symbol)
    (h : R 8 ts x) : R 8 (t :: ts) (unaryBefore (t.span.merge x.span) op x)
  behind {ts : List Token} {t : Token} {op : UnaryOp} {x : Expr} (h : R 9 ts x)
    (hop : op = .increment ∨ op = .decrement) (ht : t.kind = .symbol op.symbol) :
    R 9 (ts ++ [t]) (unaryBehind (x.span.merge t.span) op x)
  subscript {ts us : List Token} {t u : Token} {a i : Expr} (ha : R 9 ts a)
    (ht : t.kind = .symbol .leftBracket) (hi : R 1 us i) (hu : u.kind = .symbol .rightBracket) :
    R 9 (ts ++ t :: (us ++ [u])) (subscript (a.span.merge u.span) a i)
  name {t : Token} {id : Nat} (ht : t.kind = .identifier) : R 10 [t] (var t.span ⟨id, t.lexeme⟩)
  literal {t : Token} {value : Literal} (ht : literalOf? t = some value) (hfit : IntegersFit [t]) :
    R 10 [t] (Expr.literal t.span value)
  parentheses {ts : List Token} {t u : Token} {x : Expr} (ht : t.kind = .symbol .leftParen)
    (h : R 1 ts x) (hu : u.kind = .symbol .rightParen) :
    R 10 (t :: (ts ++ [u])) (parentheses (t.span.merge u.span) x)
  call {f t u : Token} {args : List (List Token × Expr)} {ts : List Token}
    (hf : f.kind = .identifier) (ht : t.kind = .symbol .leftParen)
    (hts : Commas (args.map Prod.fst) ts) (hargs : ∀ a ∈ args, R 1 a.1 a.2)
    (hu : u.kind = .symbol .rightParen) :
    R 10 (f :: t :: (ts ++ [u])) (call (f.span.merge u.span) f.lexeme (args.map Prod.snd))

namespace Rules

theorem derives : Rules Derives where
  tighter := .tighter
  assignment := .assignment
  binary := .binary
  before := .before
  behind := .behind
  subscript := .subscript
  name := .name
  literal ht _ := .literal ht
  parentheses := .parentheses
  call := .call

section

variable (R : Nat → List Token → Expr → Prop)

/-- The tokens are an operator of the level and its right operand. -/
def Operand (level : Nat) (ts : List Token) (next : BinaryOp × Expr) : Prop :=
  ∃ t us, ts = t :: us ∧ next.1.precedence = level ∧ t.kind = .symbol next.1.symbol ∧
    R (level + 1) us next.2

/-- The token is an operator in front of an operand, with its span. -/
def OperatorBefore (ts : List Token) (op : UnaryOp × Span) : Prop :=
  ∃ t, ts = [t] ∧ t.kind = .symbol op.1.symbol ∧ op.2 = t.span

/-- The tokens are an operator or a subscript behind an operand, with the span of the last one. -/
inductive SuffixOf : List Token → Suffix → Prop
  | operator {t : Token} {op : UnaryOp} (hop : op = .increment ∨ op = .decrement)
      (ht : t.kind = .symbol op.symbol) : SuffixOf [t] (.operator op t.span)
  | subscript {us : List Token} {t u : Token} {i : Expr} (ht : t.kind = .symbol .leftBracket)
      (hi : R 1 us i) (hu : u.kind = .symbol .rightBracket) :
      SuffixOf (t :: (us ++ [u])) (.subscript i u.span)

end

variable {R : Nat → List Token → Expr → Prop} (hR : Rules R) {level : Nat} {ts us : List Token}
  {x : Expr} {rest : List (BinaryOp × Expr)}
include hR

theorem joinLeft (hlevel : level ≠ 1) (h : R level ts x) (hrest : Rows (Operand R level) us rest) :
    R level (ts ++ us) (x.joinLeft rest) := by
  induction hrest generalizing ts x with
  | nil => simpa [Expr.joinLeft] using h
  | @cons _ vs next rest hnext _ ih =>
    obtain ⟨t, us, rfl, hop, ht, hy⟩ := hnext
    subst hop
    have hjoined : R next.1.precedence ((ts ++ t :: us) ++ vs)
        ((x.join next.1 next.2).joinLeft rest) := ih (hR.binary hlevel ht h hy)
    rw [← List.append_assoc]
    exact hjoined

theorem joinRight (h : R 2 ts x) (hrest : Rows (Operand R 1) us rest) :
    R 1 (ts ++ us) (x.joinRight rest) := by
  induction hrest generalizing ts x with
  | nil =>
    rw [List.append_nil]
    exact hR.tighter h
  | cons hnext _ ih =>
    obtain ⟨t, us, rfl, hop, ht, hy⟩ := hnext
    rw [List.cons_append]
    exact hR.assignment hop ht h (ih hy)

theorem withOperatorsBefore {ops : List (UnaryOp × Span)} (hops : Rows OperatorBefore ts ops)
    (h : R 8 us x) : R 8 (ts ++ us) (x.withOperatorsBefore ops) := by
  induction hops with
  | nil => exact h
  | @cons _ _ op _ hop _ ih =>
    obtain ⟨op, s⟩ := op
    obtain ⟨t, rfl, ht, rfl⟩ := hop
    exact hR.before ht ih

theorem withSuffixes {ss : List Suffix} (h : R 9 ts x) (hss : Rows (SuffixOf R) us ss) :
    R 9 (ts ++ us) (ss.foldl withSuffix x) := by
  induction hss generalizing ts x with
  | nil => simpa using h
  | cons hs _ ih =>
    rw [← List.append_assoc]
    cases hs with
    | operator hop ht => exact ih (hR.behind h hop ht)
    | subscript ht hi hu => exact ih (hR.subscript h ht hi hu)

end Rules

end Grammar

end LoopNest
