import LoopNest.Proofs.Grammar.Ensures
import LoopNest.Proofs.Grammar.ReadIn

/-!
# Expressions that are read

Every reader of the grammar of expressions yields trees of the form that the grammar asks for,
with names resolved from left to right.

* `Expr.ReadsAt`: an expression that binds at least as tightly as a level is read.
* `Grammar.operands_ensures`: the levels of operators that associate to the left.
* `Grammar.expression_ensures`: all expressions.
-/

namespace LoopNest

/-- An expression that binds at least as tightly as the level is read. -/
def Expr.ReadsAt (level : Nat) (c : Context) (x : Expr) (c' : Context) : Prop :=
  level ≤ x.binding ∧ x.Grammatical ∧ c.Refers x.refs c'

namespace Expr

variable {c c₁ c₂ : Context} {level : Nat} {x y : Expr}

theorem ReadsAt.mono {lower : Nat} (h : x.ReadsAt level c c₁) (hle : lower ≤ level) :
    x.ReadsAt lower c c₁ :=
  ⟨Nat.le_trans hle h.1, h.2⟩

theorem ReadsAt.reads (h : x.ReadsAt level c c₁) : c.Reads [x] c₁ := .single h.2.1 h.2.2

theorem readsAt_join {op : BinaryOp} (hx : ReadsAt (leftLevel op) c x c₁)
    (hy : ReadsAt (rightLevel op) c₁ y c₂) : ReadsAt op.precedence c (x.join op y) c₂ := by
  refine ⟨Nat.le_refl _, ⟨⟨hx.1, hx.2.1⟩, hy.1, hy.2.1⟩, ?_⟩
  rw [join, refs_binary]
  exact hx.2.2.append hy.2.2

theorem leftLevel_of_ne {op : BinaryOp} (h : op.precedence ≠ 1) : leftLevel op = op.precedence := by
  rw [leftLevel, BinaryOp.isAssignment, if_neg (by simpa using h)]

theorem rightLevel_of_ne {op : BinaryOp} (h : op.precedence ≠ 1) :
    rightLevel op = op.precedence + 1 := by
  rw [rightLevel, BinaryOp.isAssignment, if_neg (by simpa using h)]

theorem leftLevel_of_eq {op : BinaryOp} (h : op.precedence = 1) : leftLevel op = 2 := by
  rw [leftLevel, BinaryOp.isAssignment, if_pos (by simpa using h), h]

theorem rightLevel_of_eq {op : BinaryOp} (h : op.precedence = 1) : rightLevel op = 1 := by
  rw [rightLevel, BinaryOp.isAssignment, if_pos (by simpa using h), h]

end Expr

namespace Grammar

open Parse

variable {items : List Item}

theorem literal_ensures {value : Option Literal} (h : ∀ v ∈ value, v.Grammatical)
    (otherwise : Problem.Cause) (span : Span) (r : Reader) :
    (literal value otherwise span).Ensures items r fun x r' => x.ReadsAt 9 r.context r'.context := by
  cases value with
  | none => exact .fail _
  | some value =>
    refine (Ensures.advance r).bind fun _ r₁ => .pure fun _ _ _ _ hrun => ?_
    rw [hrun.2]
    exact ⟨Nat.le_refl _, h value rfl, .nil _⟩

theorem integerLiteral_grammatical {lexeme : String} :
    ∀ v ∈ integerLiteral lexeme, v.Grammatical := by
  intro v hv
  unfold integerLiteral at hv
  dsimp only at hv
  split at hv
  · next hle =>
    obtain rfl := Option.some.inj hv
    exact ⟨_, rfl, hle⟩
  · cases hv

theorem floatLiteral_grammatical {lexeme : String} :
    ∀ v ∈ floatLiteral lexeme, v.Grammatical := by
  intro v hv
  obtain ⟨d, _, rfl⟩ := Option.map_eq_some_iff.mp hv
  exact ⟨d, rfl⟩

theorem precedence_of_binaryAt? {precedence : Nat} {k : Token.Kind} {op : BinaryOp}
    (h : k.binaryAt? precedence = some op) : op.precedence = precedence := by
  obtain ⟨_, hop⟩ := Option.filter_eq_some_iff.mp h
  exact eq_of_beq hop

theorem operatorBefore_ensures (r : Reader) :
    (many operatorBefore).Ensures items r fun _ r' => r'.context = r.context := by
  have hstep (r : Reader) : operatorBefore.Ensures items r fun o r' =>
      o.elim (r' = r) fun _ => r'.context = r.context := by
    unfold operatorBefore
    refine .get ?_
    dsimp only
    split
    · exact (Ensures.advance r).bind fun _ r₁ => .pure fun _ _ _ _ hrun => hrun.2
    · exact .pure fun _ => rfl
  exact Ensures.many (I := fun r _ r' => r'.context = r.context) hstep (fun _ => rfl)
    (fun _ hfirst hrest => hrest.trans hfirst) r

section

variable {inner : Parse Expr}
  (h : ∀ r, inner.Ensures items r fun x r' => x.ReadsAt 1 r.context r'.context) (r : Reader)
include h

theorem arguments_ensures :
    (arguments inner).Ensures items r fun xs r' => r.context.Reads xs r'.context := by
  unfold arguments
  refine .get ?_
  split
  · exact .pure fun _ => .nil _
  · have hitem (r : Reader) : inner.Ensures items r fun x r' =>
        x.Grammatical ∧ r.context.Refers x.refs r'.context :=
      (h r).mono fun _ _ _ _ _ hx => hx.2
    exact (Ensures.commaSeparated hitem r).mono fun _ _ _ _ _ hxs => Context.reads_of_chain hxs.2

theorem named_ensures (name : String) (start : Span) :
    (named inner name start).Ensures items r fun x r' =>
      Text.IsName name → x.ReadsAt 9 r.context r'.context := by
  unfold named
  refine (Ensures.acceptKind _ r).bind fun accepted r₁ => ?_
  cases accepted with
  | true =>
    refine (arguments_ensures h r₁).bind fun args r₂ => ?_
    refine (Ensures.expect _ _ r₂).bind fun _ r₃ => .get (.pure ?_)
    intro _ _ _ _ hclose _ _ _ hargs _ _ _ hopen hname
    refine ⟨Nat.le_refl _, ⟨hname, (Expr.grammaticalAll_iff args).mpr hargs.1⟩, ?_⟩
    rw [Expr.refs_call, hclose.1, ← hopen.1]
    exact hargs.2
  | false =>
    refine (Ensures.resolve _ _ r₁).bind fun v r₂ => .pure ?_
    intro _ _ _ _ hv _ _ _ hclosed hname
    refine ⟨Nat.le_refl _, ?_, ?_⟩
    · rw [Expr.Grammatical, hv.1]
      exact hname
    · rw [← hclosed.1]
      exact .single hv.2.1

theorem primary_ensures :
    (primary inner).Ensures items r fun x r' => x.ReadsAt 9 r.context r'.context := by
  unfold primary
  refine .get ?_
  dsimp only
  split
  · exact literal_ensures integerLiteral_grammatical _ _ r
  · exact literal_ensures floatLiteral_grammatical _ _ r
  · exact literal_ensures (by simp [Literal.Grammatical]) _ _ r
  · next hkind =>
    refine (Ensures.advance r).bind fun _ r₁ => (named_ensures h r₁ _ _).mono ?_
    intro x r' _ _ _ hx hsound _ _ hrun
    rw [← hrun.2]
    exact hx (hsound.current_proper.name hkind)
  · refine (Ensures.advance r).bind fun _ r₁ => (h r₁).bind fun x r₂ => ?_
    refine (Ensures.expect _ _ r₂).bind fun _ r₃ => .get (.pure ?_)
    intro _ _ _ _ hclose _ _ _ hx _ _ _ hopen
    refine ⟨Nat.le_refl _, hx.2.1, ?_⟩
    rw [Expr.refs_parentheses, hclose.1, ← hopen.2]
    exact hx.2.2
  · exact .fail _

theorem suffixed_ensures :
    (suffixed inner).Ensures items r fun x r' => x.ReadsAt 9 r.context r'.context := by
  have hstep (r : Reader) : (suffix inner).Ensures items r fun o r' => o.elim (r' = r) fun s =>
      ∀ c x, Expr.ReadsAt 9 c x r.context → Expr.ReadsAt 9 c (x.withSuffix s) r'.context := by
    unfold suffix
    refine .get ?_
    dsimp only
    split
    · next op hop =>
      refine (Ensures.advance r).bind fun _ r₁ => .get (.pure fun _ _ _ _ hrun => ?_)
      intro c x hx
      rw [hrun.2]
      refine ⟨Nat.le_refl _, ⟨?_, hx.1, hx.2.1⟩, hx.2.2⟩
      unfold Token.Kind.unaryBehind? at hop
      split at hop <;> cases hop <;> simp
    · refine (Ensures.acceptKind _ r).bind fun accepted r₁ => ?_
      cases accepted with
      | false => exact .pure fun _ _ _ _ hclosed => hclosed.2.1
      | true =>
        refine (h r₁).bind fun i r₂ => (Ensures.expect _ _ r₂).bind fun _ r₃ => .get (.pure ?_)
        intro _ _ _ _ hclose _ _ _ hi _ _ _ hopen c x hx
        refine ⟨Nat.le_refl _, ⟨⟨hx.1, hx.2.1⟩, hi.2.1⟩, ?_⟩
        rw [Expr.withSuffix, Expr.refs_subscript, hclose.1]
        rw [hopen.1] at hi
        exact hx.2.2.append hi.2.2
  have hmany := Ensures.many
    (I := fun r ss r' => ∀ c x, Expr.ReadsAt 9 c x r.context →
      Expr.ReadsAt 9 c (ss.foldl Expr.withSuffix x) r'.context)
    hstep (fun _ _ _ hx => hx) fun _ hs hss c x hx => hss c _ (hs c x hx)
  refine (primary_ensures h r).bind fun x r₁ => (hmany r₁).bind fun ss r₂ => .pure ?_
  exact fun _ _ _ _ hss _ _ _ hx => hss _ x hx

theorem unary_ensures :
    (unary inner).Ensures items r fun x r' => x.ReadsAt 8 r.context r'.context := by
  have hbefore {c c' : Context} (ops : List (UnaryOp × Span)) {x : Expr}
      (hx : Expr.ReadsAt 8 c x c') : Expr.ReadsAt 8 c (x.withOperatorsBefore ops) c' := by
    induction ops with
    | nil => exact hx
    | cons op ops ih => exact ⟨Nat.le_refl _, ⟨ih.1, ih.2.1⟩, ih.2.2⟩
  refine (operatorBefore_ensures r).bind fun ops r₁ => (suffixed_ensures h r₁).bind fun x r₂ => ?_
  refine .pure fun _ _ _ _ hx _ _ _ hops => hbefore ops ?_
  rw [← hops]
  exact hx.mono (by decide)

end

/-- An operator of a level with an operand of the level above it. -/
theorem operatorAndOperand_ensures {operand : Parse Expr} {precedence : Nat}
    (h : ∀ r, operand.Ensures items r fun x r' => x.ReadsAt (precedence + 1) r.context r'.context)
    (r : Reader) :
    (operatorAndOperand precedence operand).Ensures items r fun o r' => o.elim (r' = r) fun next =>
      next.1.precedence = precedence ∧ next.2.ReadsAt (precedence + 1) r.context r'.context := by
  unfold operatorAndOperand
  refine .get ?_
  split
  · next op hop =>
    refine (Ensures.advance r).bind fun _ r₁ => (h r₁).bind fun x r₂ => .pure ?_
    intro _ _ _ _ hx _ _ _ hrun
    rw [hrun.2] at hx
    exact ⟨precedence_of_binaryAt? hop, hx⟩
  · exact .pure fun _ => rfl

section

variable {inner : Parse Expr}
  (h : ∀ r, inner.Ensures items r fun x r' => x.ReadsAt 1 r.context r'.context)
include h

theorem operands_ensures {n : Nat} (hn : n ≤ 6) (r : Reader) :
    (operands inner n).Ensures items r fun x r' => x.ReadsAt (8 - n) r.context r'.context := by
  induction n generalizing r with
  | zero => exact unary_ensures h r
  | succ n ih =>
    have hlevel : 8 - n = 7 - n + 1 := by omega
    have hoperand (r : Reader) : (operands inner n).Ensures items r fun x r' =>
        x.ReadsAt (7 - n + 1) r.context r'.context := hlevel ▸ ih (by omega) r
    have hmany := Ensures.many
      (I := fun r rest r' => ∀ c x, Expr.ReadsAt (7 - n) c x r.context →
        Expr.ReadsAt (7 - n) c (x.joinLeft rest) r'.context)
      (operatorAndOperand_ensures hoperand) (fun _ _ _ hx => hx) ?_
    · have hlevel' : 8 - (n + 1) = 7 - n := by omega
      rw [hlevel']
      refine (hoperand r).bind fun x r₁ => (hmany r₁).bind fun rest r₂ => .pure ?_
      exact fun _ _ _ _ hrest _ _ _ hx => hrest _ x (hx.mono (Nat.le_succ _))
    · rintro r ⟨op, y⟩ r₁ rest r₂ - ⟨hop, hy⟩ hrest c x hx
      have hop : op.precedence = 7 - n := hop
      have hne : op.precedence ≠ 1 := by omega
      have hleft : Expr.ReadsAt (Expr.leftLevel op) c x r.context := by
        rw [Expr.leftLevel_of_ne hne, hop]
        exact hx
      have hright : Expr.ReadsAt (Expr.rightLevel op) r.context y r₁.context := by
        rw [Expr.rightLevel_of_ne hne, hop]
        exact hy
      exact hrest c _ (hop ▸ Expr.readsAt_join hleft hright)

theorem assignment_ensures (r : Reader) :
    (assignment inner).Ensures items r fun x r' => x.ReadsAt 1 r.context r'.context := by
  have hoperand := operands_ensures h (Nat.le_refl 6)
  have hmany := Ensures.many
    (I := fun r rest r' => ∀ c x, Expr.ReadsAt 2 c x r.context →
      Expr.ReadsAt 1 c (x.joinRight rest) r'.context)
    (operatorAndOperand_ensures hoperand) (fun _ _ _ hx => hx.mono (by decide)) ?_
  · refine (hoperand r).bind fun x r₁ => (hmany r₁).bind fun rest r₂ => .pure ?_
    exact fun _ _ _ _ hrest _ _ _ hx => hrest _ x hx
  · rintro r ⟨op, y⟩ r₁ rest r₂ - ⟨hop, hy⟩ hrest c x hx
    have hop : op.precedence = 1 := hop
    have hleft : Expr.ReadsAt (Expr.leftLevel op) c x r.context := by
      rw [Expr.leftLevel_of_eq hop]
      exact hx
    have hright : Expr.ReadsAt (Expr.rightLevel op) r.context (y.joinRight rest) r₂.context := by
      rw [Expr.rightLevel_of_eq hop]
      exact hrest _ y hy
    exact hop ▸ Expr.readsAt_join hleft hright

end

theorem expression_ensures (r : Reader) :
    expression.Ensures items r fun x r' => x.ReadsAt 1 r.context r'.context := by
  have hrounds (rounds : List Item) (r : Reader) : (expressionFor rounds).Ensures items r fun x r' =>
      x.ReadsAt 1 r.context r'.context := by
    induction rounds generalizing r with
    | nil => exact .fail _
    | cons _ rounds ih => exact assignment_ensures ih r
  exact .get (hrounds r.remaining r)

end Grammar

end LoopNest
