import LoopNest.Proofs.Header.Clauses

/-!
# The shape of a header

The rules that a header must obey, in the order in which they are checked. A header that obeys all
of them has the shape of a mapped loop, and a descriptor says of any other header which rule is the
first one that it breaks.

* `HeaderRule`: the rules. In each clause the form of the statement comes first, then the topmost
  node, then its operator, then the iterator.
* `Loop.Obeys`: that a loop obeys a rule. A rule about a clause says all that the rules before it
  say about that clause.
* `Loop.HasShape`: the shape, as one condition.
* `Loop.describe_shape`: which facts and which rejection are in a descriptor.
-/

namespace LoopNest

/-! ## Rules -/

inductive HeaderRule where
  | declaration | single | iteratorType
  | check | checkNode | checkOperator | checkIterator
  | update | updateNode | updateOperator | updateIterator
deriving DecidableEq, Repr

namespace HeaderRule

/-- The rules in the order in which they are checked. -/
def all : List HeaderRule :=
  [declaration, single, iteratorType, check, checkNode, checkOperator, checkIterator,
    update, updateNode, updateOperator, updateIterator]

/-- The number of rules before this one. -/
def rank (r : HeaderRule) : Nat := all.idxOf r

theorem all_rank (r : HeaderRule) : all[r.rank]? = some r := by
  cases r <;> rfl

theorem eq_of_rank_eq {r s : HeaderRule} (h : r.rank = s.rank) : r = s := by
  have hr := r.all_rank
  rw [h, s.all_rank] at hr
  exact (Option.some.inj hr).symm

theorem rank_le (r : HeaderRule) : r.rank ≤ updateIterator.rank := by
  cases r <;> decide

/-- What is reported when the rule is broken. An update without an operator on top and one with
another operator are reported alike. -/
def violation (iterator : String) : HeaderRule → Violation
  | declaration => .expectedDeclaration
  | single => .multipleIterators
  | iteratorType => .invalidIteratorType
  | check => .expectedCheckExpression iterator
  | checkNode => .expectedComparison iterator
  | checkOperator => .invalidCheckOperator iterator
  | checkIterator => .checkMissingIterator iterator
  | update => .expectedUpdateExpression iterator
  | updateNode | updateOperator => .invalidUpdateOperator iterator
  | updateIterator => .updateMissingIterator iterator

end HeaderRule

/-! ## Clauses -/

/-- The expression of which a statement consists. -/
def Stmt.value? : Stmt → Option Expr
  | expression _ x => some x
  | _ => none

namespace Expr

/-- The way of updating that the topmost operator stands for. -/
def updateOp? : Expr → Option UpdateOp
  | unaryBefore _ op _ => UpdateOp.ofUnaryBefore? op
  | unaryBehind _ op _ => UpdateOp.ofUnaryBehind? op
  | binary _ op _ _ => UpdateOp.ofBinary? op
  | _ => none

/-- An operator on top, with one operand or two. -/
inductive IsOperation : Expr → Prop
  | before {span op x} : IsOperation (.unaryBefore span op x)
  | behind {span op x} : IsOperation (.unaryBehind span op x)
  | binary {span op l r} : IsOperation (.binary span op l r)

/-- The bare variable is an operand of the topmost operator. -/
inductive HasOperand (id : Nat) : Expr → Prop
  | before {span op x} : x.isVar id = true → HasOperand id (.unaryBefore span op x)
  | behind {span op x} : x.isVar id = true → HasOperand id (.unaryBehind span op x)
  | left {span op l r} : l.isVar id = true → HasOperand id (.binary span op l r)
  | right {span op l r} : r.isVar id = true → HasOperand id (.binary span op l r)

/-- An update of the bare variable by `++`, `--`, `+=` or `-=`. -/
inductive Updates (id : Nat) : Expr → Prop
  | before {span op x} : op ∈ [.increment, .decrement] → x.isVar id = true →
      Updates id (.unaryBefore span op x)
  | behind {span op x} : op ∈ [.increment, .decrement] → x.isVar id = true →
      Updates id (.unaryBehind span op x)
  | left {span op l r} : op ∈ [.addAssign, .subAssign] → l.isVar id = true →
      Updates id (.binary span op l r)
  | right {span op l r} : op ∈ [.addAssign, .subAssign] → r.isVar id = true →
      Updates id (.binary span op l r)

end Expr

namespace Loop

/-- The first clause declares this variable and no other one. -/
def Declares (loop : Loop) (d : Declarator) : Prop := ∃ head, loop.init = .declaration head [d]

def Obeys (loop : Loop) (vars : VarTable) : HeaderRule → Prop
  | .declaration => ∃ head d ds, loop.init = .declaration head (d :: ds)
  | .single => ∃ d, loop.Declares d
  | .iteratorType => ∃ d, loop.Declares d ∧
      vars.type? d.var.id ∈ [some ⟨.char, 0⟩, some ⟨.short, 0⟩, some ⟨.int, 0⟩]
  | .check => ∃ head x, loop.check = .expression head x
  | .checkNode => ∃ head span op l r, loop.check = .expression head (.binary span op l r)
  | .checkOperator => ∃ head span op l r, loop.check = .expression head (.binary span op l r) ∧
      op ∈ [.lt, .le, .ge, .gt]
  | .checkIterator => ∃ d, loop.Declares d ∧
      ∃ head span op l r, loop.check = .expression head (.binary span op l r) ∧
        (l.isVar d.var.id = true ∨ r.isVar d.var.id = true)
  | .update => ∃ head x, loop.update = .expression head x
  | .updateNode => ∃ head x, loop.update = .expression head x ∧ x.IsOperation
  | .updateOperator => ∃ head x, loop.update = .expression head x ∧ x.updateOp?.isSome = true
  | .updateIterator => ∃ d, loop.Declares d ∧
      ∃ head x, loop.update = .expression head x ∧ x.HasOperand d.var.id

/-- The rule and all before it are obeyed. -/
def ObeysUpTo (loop : Loop) (vars : VarTable) (rule : HeaderRule) : Prop :=
  ∀ r : HeaderRule, r.rank ≤ rule.rank → loop.Obeys vars r

/-- The rule is the first one that is broken. -/
structure FirstBroken (loop : Loop) (vars : VarTable) (rule : HeaderRule) : Prop where
  broken : ¬ loop.Obeys vars rule
  earlier : ∀ r : HeaderRule, r.rank < rule.rank → loop.Obeys vars r

/-- The shape of a mapped loop. -/
def HasShape (loop : Loop) (vars : VarTable) : Prop :=
  ∃ head d, loop.init = .declaration head [d] ∧
    vars.type? d.var.id ∈ [some ⟨.char, 0⟩, some ⟨.short, 0⟩, some ⟨.int, 0⟩] ∧
    (∃ head span op l r, loop.check = .expression head (.binary span op l r) ∧
      op ∈ [.lt, .le, .ge, .gt] ∧ (l.isVar d.var.id = true ∨ r.isVar d.var.id = true)) ∧
    ∃ head x, loop.update = .expression head x ∧ x.Updates d.var.id

/-- Where a rule is broken. -/
def place (loop : Loop) : HeaderRule → Span
  | .declaration => loop.init.span
  | .single => ((loop.init.declarators?.getD [])[1]?.map Declarator.span).getD .none
  | .iteratorType => ((loop.init.declarators?.getD [])[0]?.map Declarator.span).getD .none
  | .check => loop.check.span
  | .checkNode | .checkOperator | .checkIterator => (loop.check.value?.map Expr.span).getD .none
  | .update | .updateNode => loop.update.span
  | .updateOperator => (loop.update.value?.map Expr.span).getD .none
  | .updateIterator => (loop.update.value?.map fun x => x.startNode.span).getD .none

/-! ## Rules that are passed -/

section Rules

variable {loop : Loop} {vars : VarTable} {rule rule' : HeaderRule}

theorem obeysUpTo_declaration (h : loop.Obeys vars .declaration) :
    loop.ObeysUpTo vars .declaration := by
  intro r hr
  have hrank : r.rank = HeaderRule.declaration.rank := Nat.le_zero.mp hr
  rwa [HeaderRule.eq_of_rank_eq hrank]

theorem ObeysUpTo.next (h : loop.ObeysUpTo vars rule) (rule' : HeaderRule)
    (hrank : rule'.rank = rule.rank + 1) (hnext : loop.Obeys vars rule') :
    loop.ObeysUpTo vars rule' := by
  intro r hr
  by_cases heq : r.rank = rule'.rank
  · rwa [HeaderRule.eq_of_rank_eq heq]
  · exact h r (by omega)

theorem ObeysUpTo.broken (h : loop.ObeysUpTo vars rule) (hrank : rule'.rank = rule.rank + 1)
    (hnext : ¬ loop.Obeys vars rule') : loop.FirstBroken vars rule' :=
  ⟨hnext, fun r hr => h r (by omega)⟩

theorem FirstBroken.not_obeysUpTo (h : loop.FirstBroken vars rule)
    (hrank : rule.rank ≤ rule'.rank) : ¬ loop.ObeysUpTo vars rule' :=
  fun hnext => h.broken (hnext rule hrank)

theorem FirstBroken.obeysUpTo (h : loop.FirstBroken vars rule) (hrank : rule'.rank < rule.rank) :
    loop.ObeysUpTo vars rule' :=
  fun r hr => h.earlier r (by omega)

theorem ObeysUpTo.mono (h : loop.ObeysUpTo vars rule) (hrank : rule'.rank ≤ rule.rank) :
    loop.ObeysUpTo vars rule' :=
  fun r hr => h r (Nat.le_trans hr hrank)

/-- A loop has one first broken rule at most. -/
theorem FirstBroken.eq (h : loop.FirstBroken vars rule) (h' : loop.FirstBroken vars rule') :
    rule = rule' := by
  apply HeaderRule.eq_of_rank_eq
  have hle : ¬ rule.rank < rule'.rank := fun hlt => h.broken (h'.earlier rule hlt)
  have hge : ¬ rule'.rank < rule.rank := fun hlt => h'.broken (h.earlier rule' hlt)
  omega

theorem Declares.eq {d e : Declarator} (h : loop.Declares d) (h' : loop.Declares e) : d = e := by
  obtain ⟨head, h⟩ := h
  obtain ⟨head', h'⟩ := h'
  rw [h] at h'
  cases h'
  rfl

end Rules

end Loop

/-! ## Operators -/

theorem BinaryOp.isComparison_iff {op : BinaryOp} :
    op.isComparison = true ↔ op ∈ [.lt, .le, .ge, .gt] := by
  cases op <;> decide

theorem VarTable.hasIteratorType_iff {vars : VarTable} {id : Nat} :
    ((vars.type? id).map VarType.isIteratorType).getD false = true ↔
      vars.type? id ∈ [some ⟨.char, 0⟩, some ⟨.short, 0⟩, some ⟨.int, 0⟩] := by
  cases vars.type? id with
  | none => simp
  | some t =>
    obtain ⟨base, pointers⟩ := t
    cases base <;> simp [VarType.isIteratorType]

theorem Expr.hasOperand_binary_iff (id : Nat) (span : Span) (op : BinaryOp) (l r : Expr) :
    (Expr.binary span op l r).HasOperand id ↔ l.isVar id = true ∨ r.isVar id = true := by
  constructor
  · intro h
    cases h with
    | left hl => exact Or.inl hl
    | right hr => exact Or.inr hr
  · rintro (hl | hr)
    · exact .left hl
    · exact .right hr

theorem Expr.side_isMatch_iff (id : Nat) (span : Span) (op : BinaryOp) (l r : Expr) :
    ((Expr.binary span op l r).side id).isMatch = true ↔ (binary span op l r).HasOperand id := by
  rw [hasOperand_binary_iff]
  cases hl : l.isVar id with
  | true => simp [side_of_left hl, Side.isMatch, Side.other?]
  | false =>
    cases hr : r.isVar id with
    | true => simp [side_of_right hl hr, Side.isMatch, Side.other?]
    | false => simp [side_of_neither hl hr, Side.isMatch, Side.other?]

theorem Expr.isOperation_of_updateOp? {x : Expr} (h : x.updateOp?.isSome = true) :
    x.IsOperation := by
  cases x with
  | unaryBefore => exact .before
  | unaryBehind => exact .behind
  | binary => exact .binary
  | _ => cases h

/-- The parts of an update are its operator and whether the variable is an operand. -/
theorem Expr.updateParts?_of_isOperation (id : Nat) {x : Expr} (h : x.IsOperation) :
    ∃ value found, updateParts? id x = some (x.updateOp?, value, found) ∧
      (found = true ↔ x.HasOperand id) := by
  cases h with
  | @before span op x =>
    refine ⟨none, x.isVar id, rfl, fun hx => .before hx, fun hx => ?_⟩
    cases hx with
    | before hx => exact hx
  | @behind span op x =>
    refine ⟨none, x.isVar id, rfl, fun hx => .behind hx, fun hx => ?_⟩
    cases hx with
    | behind hx => exact hx
  | binary => exact ⟨_, _, rfl, side_isMatch_iff _ _ _ _ _⟩

theorem UpdateOp.ofUnaryBefore?_isSome_iff {op : UnaryOp} :
    (ofUnaryBefore? op).isSome = true ↔ op ∈ [.increment, .decrement] := by
  cases op <;> decide

theorem UpdateOp.ofUnaryBehind?_isSome_iff {op : UnaryOp} :
    (ofUnaryBehind? op).isSome = true ↔ op ∈ [.increment, .decrement] := by
  cases op <;> decide

theorem UpdateOp.ofBinary?_isSome_iff {op : BinaryOp} :
    (ofBinary? op).isSome = true ↔ op ∈ [.addAssign, .subAssign] := by
  cases op <;> decide

theorem Expr.updates_iff {id : Nat} {x : Expr} :
    x.Updates id ↔ x.updateOp?.isSome = true ∧ x.HasOperand id := by
  constructor
  · intro h
    cases h with
    | before hop hx => exact ⟨UpdateOp.ofUnaryBefore?_isSome_iff.mpr hop, .before hx⟩
    | behind hop hx => exact ⟨UpdateOp.ofUnaryBehind?_isSome_iff.mpr hop, .behind hx⟩
    | left hop hl => exact ⟨UpdateOp.ofBinary?_isSome_iff.mpr hop, .left hl⟩
    | right hop hr => exact ⟨UpdateOp.ofBinary?_isSome_iff.mpr hop, .right hr⟩
  · rintro ⟨hop, hx⟩
    cases hx with
    | before hx => exact .before (UpdateOp.ofUnaryBefore?_isSome_iff.mp hop) hx
    | behind hx => exact .behind (UpdateOp.ofUnaryBehind?_isSome_iff.mp hop) hx
    | left hl => exact .left (UpdateOp.ofBinary?_isSome_iff.mp hop) hl
    | right hr => exact .right (UpdateOp.ofBinary?_isSome_iff.mp hop) hr

/-! ## Reading the clauses -/

namespace Loop

variable {loop : Loop} {vars : VarTable}

/-- The first clause is read if its rules are obeyed. Else the first broken one is reported, with
no name. -/
theorem iteratorOf_cases (loop : Loop) (vars : VarTable) :
    (∃ d, iteratorOf vars loop.init = .ok d ∧ loop.Declares d ∧
      loop.ObeysUpTo vars .iteratorType) ∨
    ∃ rule : HeaderRule, rule.rank ≤ HeaderRule.iteratorType.rank ∧ loop.FirstBroken vars rule ∧
      ∀ name, iteratorOf vars loop.init = .error (rule.violation name, loop.place rule) := by
  have hnone : (∀ head d ds, loop.init ≠ .declaration head (d :: ds)) →
      loop.FirstBroken vars .declaration := by
    intro hne
    exact ⟨fun ⟨head, d, ds, hinit⟩ => hne head d ds hinit,
      fun r hr => absurd hr (Nat.not_lt_zero _)⟩
  obtain ⟨init, check, update, body⟩ := loop
  cases init with
  | declaration head ds =>
    rcases ds with _ | ⟨d, _ | ⟨second, ds⟩⟩
    · exact Or.inr ⟨.declaration, by decide, hnone (by simp), fun _ => rfl⟩
    · have hsingle : ObeysUpTo ⟨.declaration head [d], check, update, body⟩ vars .single :=
        (obeysUpTo_declaration ⟨head, d, [], rfl⟩).next .single rfl ⟨d, head, rfl⟩
      by_cases htype : ((vars.type? d.var.id).map VarType.isIteratorType).getD false = true
      · exact Or.inl ⟨d, if_pos htype, ⟨head, rfl⟩,
          hsingle.next .iteratorType rfl
            ⟨d, ⟨head, rfl⟩, VarTable.hasIteratorType_iff.mp htype⟩⟩
      · refine Or.inr ⟨.iteratorType, by decide, hsingle.broken rfl ?_, fun _ => if_neg htype⟩
        rintro ⟨e, ⟨head', he⟩, htype'⟩
        cases he
        exact htype (VarTable.hasIteratorType_iff.mpr htype')
    · refine Or.inr ⟨.single, by decide, ?_, fun _ => rfl⟩
      refine (obeysUpTo_declaration ⟨head, d, second :: ds, rfl⟩).broken rfl ?_
      rintro ⟨e, head', he⟩
      cases he
  | _ => exact Or.inr ⟨.declaration, by decide, hnone (by simp), fun _ => rfl⟩

variable {d : Declarator}

/-- The second clause is read up to its operator, or the first broken rule is reported. -/
theorem comparisonOf_cases (h : loop.ObeysUpTo vars .iteratorType) (name : String) :
    (∃ head span op l r, loop.check = .expression head (.binary span op l r) ∧
      comparisonOf name loop.check = .ok (op, .binary span op l r) ∧
      loop.ObeysUpTo vars .checkOperator) ∨
    ∃ rule : HeaderRule, HeaderRule.iteratorType.rank < rule.rank ∧
      rule.rank ≤ HeaderRule.checkOperator.rank ∧ loop.FirstBroken vars rule ∧
      comparisonOf name loop.check = .error (rule.violation name, loop.place rule) := by
  obtain ⟨init, check, update, body⟩ := loop
  cases check with
  | expression head x =>
    have hform := h.next .check rfl ⟨head, x, rfl⟩
    cases x with
    | binary span op l r =>
      have hnode := hform.next .checkNode rfl ⟨head, span, op, l, r, rfl⟩
      by_cases hop : op.isComparison = true
      · exact Or.inl ⟨head, span, op, l, r, rfl, if_pos hop,
          hnode.next .checkOperator rfl
            ⟨head, span, op, l, r, rfl, BinaryOp.isComparison_iff.mp hop⟩⟩
      · refine Or.inr ⟨.checkOperator, by decide, by decide, hnode.broken rfl ?_, if_neg hop⟩
        rintro ⟨_, _, _, _, _, hcheck, hop'⟩
        cases hcheck
        exact hop (BinaryOp.isComparison_iff.mpr hop')
    | _ =>
      refine Or.inr ⟨.checkNode, by decide, by decide, hform.broken rfl ?_, rfl⟩
      rintro ⟨_, _, _, _, _, hcheck⟩
      cases hcheck
  | _ =>
    refine Or.inr ⟨.check, by decide, by decide, h.broken rfl ?_, rfl⟩
    rintro ⟨_, _, hcheck⟩
    cases hcheck

/-- The comparison has a bound, or it is reported that the iterator is not in it. -/
theorem boundOf_cases {head : StmtHead} {span : Span} {op : BinaryOp} {l r : Expr}
    (h : loop.ObeysUpTo vars .checkOperator) (hd : loop.Declares d)
    (hcheck : loop.check = .expression head (.binary span op l r)) :
    (∃ b, boundOf d.var (.binary span op l r) = .ok b ∧ loop.ObeysUpTo vars .checkIterator) ∨
    (loop.FirstBroken vars .checkIterator ∧ boundOf d.var (.binary span op l r) =
      .error (HeaderRule.checkIterator.violation d.var.name, loop.place .checkIterator)) := by
  have hplace : loop.place .checkIterator = span := by
    simp only [place, hcheck]
    rfl
  have hmatch := Expr.side_isMatch_iff d.var.id span op l r
  rw [Expr.hasOperand_binary_iff] at hmatch
  cases hside : (Expr.binary span op l r).side d.var.id with
  | neither =>
    rw [hside] at hmatch
    refine Or.inr ⟨h.broken rfl ?_, ?_⟩
    · rintro ⟨e, he, _, _, _, _, _, hcheck', hlr⟩
      rw [hcheck] at hcheck'
      cases hcheck'
      rw [he.eq hd] at hlr
      exact Bool.false_ne_true (hmatch.mpr hlr)
    · rw [boundOf, hside, hplace]
      rfl
  | left b =>
    rw [hside] at hmatch
    exact Or.inl ⟨⟨b, true⟩, by rw [boundOf, hside], h.next .checkIterator rfl
      ⟨d, hd, head, span, op, l, r, hcheck, hmatch.mp rfl⟩⟩
  | right b =>
    rw [hside] at hmatch
    exact Or.inl ⟨⟨b, false⟩, by rw [boundOf, hside], h.next .checkIterator rfl
      ⟨d, hd, head, span, op, l, r, hcheck, hmatch.mp rfl⟩⟩

/-- A third clause that is an operation is read, or the first broken rule is reported. -/
theorem stepOf_cases_of_isOperation {head : StmtHead} {x : Expr}
    (h : loop.ObeysUpTo vars .updateNode) (hd : loop.Declares d)
    (hupdate : loop.update = .expression head x) (hx : x.IsOperation) :
    (∃ step, stepOf d.var loop.update = .ok step ∧ loop.ObeysUpTo vars .updateIterator) ∨
    ∃ rule : HeaderRule, HeaderRule.checkIterator.rank < rule.rank ∧ loop.FirstBroken vars rule ∧
      stepOf d.var loop.update = .error (rule.violation d.var.name, loop.place rule) := by
  obtain ⟨value, found, hparts, hfound⟩ := Expr.updateParts?_of_isOperation d.var.id hx
  cases hop : x.updateOp? with
  | none =>
    refine Or.inr ⟨.updateOperator, by decide, h.broken rfl ?_, ?_⟩
    · rintro ⟨_, y, hupdate', hy⟩
      rw [hupdate] at hupdate'
      cases hupdate'
      rw [hop] at hy
      cases hy
    · simp only [hupdate, stepOf, hparts, hop, place]
      rfl
  | some u =>
    have hoperator := h.next .updateOperator rfl ⟨head, x, hupdate, Option.isSome_of_eq_some hop⟩
    cases found with
    | true =>
      exact Or.inl ⟨⟨u, value⟩, by simp only [hupdate, stepOf, hparts, hop],
        hoperator.next .updateIterator rfl ⟨d, hd, head, x, hupdate, hfound.mp rfl⟩⟩
    | false =>
      refine Or.inr ⟨.updateIterator, by decide, hoperator.broken rfl ?_, ?_⟩
      · rintro ⟨e, he, _, y, hupdate', hy⟩
        rw [hupdate] at hupdate'
        cases hupdate'
        rw [he.eq hd] at hy
        exact Bool.false_ne_true (hfound.mpr hy)
      · simp only [hupdate, stepOf, hparts, hop, place]
        rfl

/-- The third clause is read, or the first broken rule is reported. -/
theorem stepOf_cases (h : loop.ObeysUpTo vars .checkIterator) (hd : loop.Declares d) :
    (∃ step, stepOf d.var loop.update = .ok step ∧ loop.ObeysUpTo vars .updateIterator) ∨
    ∃ rule : HeaderRule, HeaderRule.checkIterator.rank < rule.rank ∧ loop.FirstBroken vars rule ∧
      stepOf d.var loop.update = .error (rule.violation d.var.name, loop.place rule) := by
  cases hupdate : loop.update with
  | expression head x =>
    have hform := h.next .update rfl ⟨head, x, hupdate⟩
    by_cases hx : x.IsOperation
    · have hnode := hform.next .updateNode rfl ⟨head, x, hupdate, hx⟩
      exact hupdate ▸ stepOf_cases_of_isOperation hnode hd hupdate hx
    · refine Or.inr ⟨.updateNode, by decide, hform.broken rfl ?_, ?_⟩
      · rintro ⟨_, y, hupdate', hy⟩
        rw [hupdate] at hupdate'
        cases hupdate'
        exact hx hy
      · have hparts : updateParts? d.var.id x = none := by
          cases x with
          | unaryBefore => exact absurd .before hx
          | unaryBehind => exact absurd .behind hx
          | binary => exact absurd .binary hx
          | _ => rfl
        simp only [stepOf, hparts, place, hupdate]
        rfl
  | _ =>
    refine Or.inr ⟨.update, by decide, h.broken rfl ?_, by simp only [stepOf, place, hupdate]; rfl⟩
    rintro ⟨_, _, hupdate'⟩
    rw [hupdate] at hupdate'
    cases hupdate'

/-! ## Facts -/

/-- The second clause has this operator on top. -/
def Compares (loop : Loop) (op : BinaryOp) : Prop :=
  ∃ head span l r, loop.check = .expression head (.binary span op l r)

/-- The bound is the operand that is not the iterator, the right one if both are. -/
def IsBound (loop : Loop) (b : Bound) : Prop :=
  ∃ it, loop.Declares it ∧
    ∃ head span op l r, loop.check = .expression head (.binary span op l r) ∧
      ((l.isVar it.var.id = true ∧ b = ⟨r, true⟩) ∨
        (l.isVar it.var.id = false ∧ r.isVar it.var.id = true ∧ b = ⟨l, false⟩))

/-- The third clause is an update of the iterator with this step. -/
def IsStep (loop : Loop) (step : Step) : Prop :=
  ∃ it, loop.Declares it ∧ ∃ head x, loop.update = .expression head x ∧ x.IsStep it.var.id step

theorem Compares.eq {op op' : BinaryOp} (h : loop.Compares op) (h' : loop.Compares op') :
    op = op' := by
  obtain ⟨head, span, l, r, h⟩ := h
  obtain ⟨head', span', l', r', h'⟩ := h'
  rw [h] at h'
  cases h'
  rfl

theorem IsBound.eq {b b' : Bound} (h : loop.IsBound b) (h' : loop.IsBound b') : b = b' := by
  obtain ⟨it, hit, head, span, op, l, r, hcheck, hb⟩ := h
  obtain ⟨it', hit', head', span', op', l', r', hcheck', hb'⟩ := h'
  rw [hcheck] at hcheck'
  cases hcheck'
  rw [hit'.eq hit] at hb'
  have hfound : boundOf it.var (.binary span op l r) = .ok b := boundOf_eq_ok_iff.mpr hb
  have hfound' : boundOf it.var (.binary span op l r) = .ok b' := boundOf_eq_ok_iff.mpr hb'
  exact Except.ok.inj (hfound.symm.trans hfound')

theorem IsStep.eq {step step' : Step} (h : loop.IsStep step) (h' : loop.IsStep step') :
    step = step' := by
  obtain ⟨it, hit, hstep⟩ := h
  obtain ⟨it', hit', hstep'⟩ := h'
  rw [hit'.eq hit] at hstep'
  rw [← stepOf_eq_ok_iff] at hstep hstep'
  exact Except.ok.inj (hstep.symm.trans hstep')

/-- A descriptor has the facts of the clauses whose rules are obeyed, and no other ones. The
operator of a comparison is there without its rule about the iterator. -/
structure HasFacts (loop : Loop) (vars : VarTable) (d : Descriptor) : Prop where
  iterator : ∀ it, d.iterator = some it ↔ loop.ObeysUpTo vars .iteratorType ∧ loop.Declares it
  comparison : ∀ op, d.comparison = some op ↔
    loop.ObeysUpTo vars .checkOperator ∧ loop.Compares op
  bound : ∀ b, d.bound = some b ↔ loop.ObeysUpTo vars .checkIterator ∧ loop.IsBound b
  step : ∀ step, d.step = some step ↔ loop.ObeysUpTo vars .updateIterator ∧ loop.IsStep step

/-- The rejection of a header that breaks a rule. -/
def rejection (loop : Loop) (iterator label : String) (rule : HeaderRule) : Rejection :=
  ⟨rule.violation iterator, loop.place rule, label⟩

/-- How the reading of a header ends: at a broken rule of one of the clauses or behind the last
one. -/
inductive Outcome (loop : Loop) (vars : VarTable) (label : String) : Descriptor → Prop
  | atInit {rule : HeaderRule} : rule.rank ≤ HeaderRule.iteratorType.rank →
      loop.FirstBroken vars rule →
      Outcome loop vars label { failure := some (loop.rejection "" label rule) }
  | atCheck {it : Declarator} {rule : HeaderRule} : HeaderRule.iteratorType.rank < rule.rank →
      rule.rank ≤ HeaderRule.checkOperator.rank → loop.FirstBroken vars rule → loop.Declares it →
      Outcome loop vars label
        { iterator := some it, failure := some (loop.rejection it.var.name label rule) }
  | atBound {it : Declarator} {op : BinaryOp} : loop.FirstBroken vars .checkIterator →
      loop.Declares it → loop.Compares op →
      Outcome loop vars label
        { iterator := some it, comparison := some op,
          failure := some (loop.rejection it.var.name label .checkIterator) }
  | atUpdate {it : Declarator} {op : BinaryOp} {b : Bound} {rule : HeaderRule} :
      HeaderRule.checkIterator.rank < rule.rank → loop.FirstBroken vars rule →
      loop.Declares it → loop.Compares op → loop.IsBound b →
      Outcome loop vars label
        { iterator := some it, comparison := some op, bound := some b,
          failure := some (loop.rejection it.var.name label rule) }
  | atEnd {it : Declarator} {op : BinaryOp} {b : Bound} {step : Step} :
      loop.ObeysUpTo vars .updateIterator →
      loop.Declares it → loop.Compares op → loop.IsBound b → loop.IsStep step →
      Outcome loop vars label
        { iterator := some it, comparison := some op, bound := some b, step := some step }

theorem describe_outcome (loop : Loop) (vars : VarTable) (label : String) :
    loop.Outcome vars label (loop.describe vars label) := by
  unfold describe
  rcases loop.iteratorOf_cases vars with ⟨it, hit, hd, hinit⟩ | ⟨rule, hrank, hbroken, hit⟩
  · rcases comparisonOf_cases hinit it.var.name with
      ⟨head, span, op, l, r, hcheck, hop, hcomparison⟩ | ⟨rule, hlow, hrank, hbroken, hop⟩
    · have hcompares : loop.Compares op := ⟨head, span, l, r, hcheck⟩
      rcases boundOf_cases hcomparison hd hcheck with ⟨b, hb, hbound⟩ | ⟨hbroken, hb⟩
      · have hisBound : loop.IsBound b :=
          ⟨it, hd, head, span, op, l, r, hcheck, boundOf_eq_ok_iff.mp hb⟩
        rcases stepOf_cases hbound hd with ⟨step, hstep, hall⟩ | ⟨rule, hrank, hbroken, hstep⟩
        · have hisStep : loop.IsStep step := ⟨it, hd, stepOf_eq_ok_iff.mp hstep⟩
          simp only [hit, hop, hb, hstep]
          exact .atEnd hall hd hcompares hisBound hisStep
        · simp only [hit, hop, hb, hstep]
          exact .atUpdate hrank hbroken hd hcompares hisBound
      · simp only [hit, hop, hb]
        exact .atBound hbroken hd hcompares
    · simp only [hit, hop]
      exact .atCheck hlow hrank hbroken hd
  · simp only [hit ""]
    exact .atInit hrank hbroken

section Fact

variable {α : Type} {P : Prop} {Q : α → Prop}

private theorem fact_absent (h : ¬ P) (a : α) : none = some a ↔ P ∧ Q a := by
  constructor
  · intro hnone
    cases hnone
  · rintro ⟨hP, _⟩
    exact absurd hP h

private theorem fact_present {found : α} (h : P) (hfound : Q found)
    (heq : ∀ a, Q a → found = a) (a : α) : some found = some a ↔ P ∧ Q a := by
  rw [Option.some.injEq]
  constructor
  · rintro rfl
    exact ⟨h, hfound⟩
  · rintro ⟨_, ha⟩
    exact heq a ha

end Fact

theorem Outcome.hasFacts {label : String} {d : Descriptor} (h : loop.Outcome vars label d) :
    loop.HasFacts vars d := by
  -- The facts of a clause are there if the first broken rule stands behind the clause.
  cases h with
  | atInit hrank hbroken =>
    exact {
      iterator := fact_absent (hbroken.not_obeysUpTo hrank)
      comparison := fact_absent (hbroken.not_obeysUpTo (Nat.le_trans hrank (by decide)))
      bound := fact_absent (hbroken.not_obeysUpTo (Nat.le_trans hrank (by decide)))
      step := fact_absent (hbroken.not_obeysUpTo (Nat.le_trans hrank (by decide))) }
  | atCheck hlow hrank hbroken hit =>
    exact {
      iterator := fact_present (hbroken.obeysUpTo hlow) hit fun _ => hit.eq
      comparison := fact_absent (hbroken.not_obeysUpTo hrank)
      bound := fact_absent (hbroken.not_obeysUpTo (Nat.le_trans hrank (by decide)))
      step := fact_absent (hbroken.not_obeysUpTo (Nat.le_trans hrank (by decide))) }
  | atBound hbroken hit hop =>
    exact {
      iterator := fact_present (hbroken.obeysUpTo (by decide)) hit fun _ => hit.eq
      comparison := fact_present (hbroken.obeysUpTo (by decide)) hop fun _ => hop.eq
      bound := fact_absent (hbroken.not_obeysUpTo (by decide))
      step := fact_absent (hbroken.not_obeysUpTo (by decide)) }
  | @atUpdate it op b rule hlow hbroken hit hop hb =>
    have hbound := hbroken.obeysUpTo hlow
    exact {
      iterator := fact_present (hbound.mono (by decide)) hit fun _ => hit.eq
      comparison := fact_present (hbound.mono (by decide)) hop fun _ => hop.eq
      bound := fact_present hbound hb fun _ => hb.eq
      step := fact_absent (hbroken.not_obeysUpTo rule.rank_le) }
  | atEnd hall hit hop hb hstep =>
    exact {
      iterator := fact_present (hall.mono (by decide)) hit fun _ => hit.eq
      comparison := fact_present (hall.mono (by decide)) hop fun _ => hop.eq
      bound := fact_present (hall.mono (by decide)) hb fun _ => hb.eq
      step := fact_present hall hstep fun _ => hstep.eq }

/-! ## The shape -/

theorem hasShape_iff : loop.HasShape vars ↔ loop.ObeysUpTo vars .updateIterator := by
  constructor
  · rintro ⟨head, it, hinit, htype, ⟨head', span, op, l, r, hcheck, hop, hlr⟩,
      ⟨head'', x, hupdate, hx⟩⟩
    obtain ⟨hupdateOp, hoperand⟩ := Expr.updates_iff.mp hx
    intro rule _
    cases rule with
    | declaration => exact ⟨head, it, [], hinit⟩
    | single => exact ⟨it, head, hinit⟩
    | iteratorType => exact ⟨it, ⟨head, hinit⟩, htype⟩
    | check => exact ⟨head', _, hcheck⟩
    | checkNode => exact ⟨head', span, op, l, r, hcheck⟩
    | checkOperator => exact ⟨head', span, op, l, r, hcheck, hop⟩
    | checkIterator => exact ⟨it, ⟨head, hinit⟩, head', span, op, l, r, hcheck, hlr⟩
    | update => exact ⟨head'', x, hupdate⟩
    | updateNode => exact ⟨head'', x, hupdate, Expr.isOperation_of_updateOp? hupdateOp⟩
    | updateOperator => exact ⟨head'', x, hupdate, hupdateOp⟩
    | updateIterator => exact ⟨it, ⟨head, hinit⟩, head'', x, hupdate, hoperand⟩
  · intro h
    obtain ⟨it, ⟨head, hinit⟩, htype⟩ := h .iteratorType (by decide)
    obtain ⟨head', span, op, l, r, hcheck, hop⟩ := h .checkOperator (by decide)
    obtain ⟨it', hit', _, _, _, _, _, hcheck', hlr⟩ := h .checkIterator (by decide)
    obtain ⟨head'', x, hupdate, hupdateOp⟩ := h .updateOperator (by decide)
    obtain ⟨it'', hit'', _, _, hupdate', hoperand⟩ := h .updateIterator (by decide)
    rw [hit'.eq ⟨head, hinit⟩] at hlr
    rw [hit''.eq ⟨head, hinit⟩] at hoperand
    rw [hcheck] at hcheck'
    cases hcheck'
    rw [hupdate] at hupdate'
    cases hupdate'
    exact ⟨head, it, hinit, htype, ⟨head', span, op, l, r, hcheck, hop, hlr⟩,
      head'', x, hupdate, Expr.updates_iff.mpr ⟨hupdateOp, hoperand⟩⟩

theorem Outcome.failure_iff {label : String} {d : Descriptor} (h : loop.Outcome vars label d)
    (failure : Rejection) : d.failure = some failure ↔
      ∃ rule, loop.FirstBroken vars rule ∧
        failure = loop.rejection ((d.iteratorVar?.map VarRef.name).getD "") label rule := by
  have hsome {rule : HeaderRule} {name : String} (hbroken : loop.FirstBroken vars rule) :
      some (loop.rejection name label rule) = some failure ↔
        ∃ rule, loop.FirstBroken vars rule ∧ failure = loop.rejection name label rule := by
    rw [Option.some.injEq]
    constructor
    · rintro rfl
      exact ⟨rule, hbroken, rfl⟩
    · rintro ⟨rule', hbroken', rfl⟩
      rw [hbroken.eq hbroken']
  cases h with
  | atInit _ hbroken => exact hsome hbroken
  | atCheck _ _ hbroken _ => exact hsome hbroken
  | atBound hbroken _ _ => exact hsome hbroken
  | atUpdate _ hbroken _ _ _ => exact hsome hbroken
  | atEnd hall =>
    constructor
    · intro hnone
      cases hnone
    · rintro ⟨rule, hbroken, _⟩
      exact absurd hall (hbroken.not_obeysUpTo rule.rank_le)

theorem Outcome.isValid_iff {label : String} {d : Descriptor} (h : loop.Outcome vars label d) :
    d.isValid = true ↔ loop.HasShape vars := by
  rw [hasShape_iff]
  have hrejected {rule : HeaderRule} (hbroken : loop.FirstBroken vars rule) :
      ¬ loop.ObeysUpTo vars .updateIterator := hbroken.not_obeysUpTo rule.rank_le
  cases h with
  | atInit _ hbroken => exact iff_of_false Bool.false_ne_true (hrejected hbroken)
  | atCheck _ _ hbroken _ => exact iff_of_false Bool.false_ne_true (hrejected hbroken)
  | atBound hbroken _ _ => exact iff_of_false Bool.false_ne_true (hrejected hbroken)
  | atUpdate _ hbroken _ _ _ => exact iff_of_false Bool.false_ne_true (hrejected hbroken)
  | atEnd hall => exact iff_of_true rfl hall

/-- A valid descriptor has all facts. -/
theorem Outcome.facts_of_isValid {label : String} {d : Descriptor}
    (h : loop.Outcome vars label d) (hvalid : d.isValid = true) :
    d.iterator.isSome = true ∧ d.comparison.isSome = true ∧ d.bound.isSome = true ∧
      ∃ op, d.updateOp? = some op ∧ d.direction? = some op.direction := by
  cases h with
  | atEnd => exact ⟨rfl, rfl, rfl, _, rfl, rfl⟩
  | _ => cases hvalid

/-- A rejected descriptor has no fact about the update. -/
theorem Outcome.step_of_rejected {label : String} {d : Descriptor}
    (h : loop.Outcome vars label d) (hvalid : d.isValid = false) : d.step = none := by
  cases h with
  | atEnd => cases hvalid
  | _ => rfl

/-- **A descriptor says which rule is the first broken one.** It is valid exactly if the header has
the shape of a mapped loop, and then it has no rejection and all facts, with the direction of the
update. Else its rejection is that of the first broken rule. In any case it has exactly the facts of
the clauses before that rule, and the operator of the comparison also if the rule is that the
iterator must be compared. -/
theorem describe_shape (loop : Loop) (vars : VarTable) (label : String) :
    let d := loop.describe vars label
    (d.isValid = true ↔ loop.HasShape vars) ∧
      (d.isValid = true ↔ d.failure = none) ∧
      (∀ failure, d.failure = some failure ↔ ∃ rule, loop.FirstBroken vars rule ∧
        failure = loop.rejection ((d.iteratorVar?.map VarRef.name).getD "") label rule) ∧
      loop.HasFacts vars d ∧
      (d.isInclusive = true ↔ d.comparison ∈ [some .le, some .ge]) ∧
      (d.isValid = true → d.iterator.isSome = true ∧ d.comparison.isSome = true ∧
        d.bound.isSome = true ∧
        ∃ op, d.updateOp? = some op ∧ d.direction? = some op.direction) ∧
      (d.isValid = false → d.updateOp? = none ∧ d.stepValue? = none ∧ d.direction? = none) := by
  intro d
  have houtcome : loop.Outcome vars label d := loop.describe_outcome vars label
  refine ⟨houtcome.isValid_iff, Option.isNone_iff_eq_none, houtcome.failure_iff,
    houtcome.hasFacts, ?_, ?_, ?_⟩
  · rw [Descriptor.isInclusive]
    cases d.comparison with
    | none => decide
    | some op => cases op <;> decide
  · exact houtcome.facts_of_isValid
  · intro hvalid
    have hstep : d.step = none := houtcome.step_of_rejected hvalid
    simp only [Descriptor.direction?, Descriptor.updateOp?, Descriptor.stepValue?, hstep,
      Option.map_none, Option.bind_none, and_self]

end Loop

end LoopNest
