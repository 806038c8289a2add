import LoopNest.Proofs.Grammar.Onward
import LoopNest.Proofs.Grammar.ReadStmt

/-!
# Reading ends

Every loop of the grammar takes an item in each round, also where nothing can be read and the
problem is noted, and statements and expressions inside others lie behind a token of these. So
reading comes to its end on every source text, however it is malformed.

* `Grammar.expression_agrees`, `Grammar.statement_agrees`, `Grammar.function_agrees`: how reading
  goes on, one lemma for each reader of the grammar.
* `Grammar.blockItem_agrees`, `Grammar.programItem_agrees`: the rounds in which reading goes on
  behind a problem.
* `Grammar.Ends`: the loops and the recursion without a bound on their rounds.
* `reading_ends`: they are so at each reader that a source text leads to.
-/

namespace LoopNest

namespace Grammar

open Parse

variable {r : Reader}

/-! ## Expressions -/

theorem literal_agrees (value : Option Literal) (otherwise : Problem.Cause) (span : Span)
    (hend : r.atEnd = false) :
    (literal value otherwise span).Takes (literal value otherwise span) r := by
  cases value with
  | none => exact .fail _
  | some v => exact .bind_takes (.advance hend) fun _ _ _ _ => .pure _ id

section

variable {inner inner' : Parse Expr} {n : Nat}
  (h : ∀ r : Reader, r.items.length < n → inner.Takes inner' r)
include h

theorem arguments_agrees (hr : r.items.length < n) :
    (arguments inner).Stays (arguments inner') r := by
  refine .get ?_
  split
  · exact .pure _ id
  · refine (Agrees.commaSeparated (n := r.items.length) (fun r₁ hr₁ => ?_) (Nat.le_refl _)).stays
    exact h r₁ (Nat.lt_of_le_of_lt hr₁ hr)

theorem named_agrees (name : String) (start : Span) (hr : r.items.length < n) :
    (named inner name start).Stays (named inner' name start) r := by
  refine .bind_stays (Agrees.accept _ r).stays fun accepted r₁ honward => ?_
  split
  · have hr₁ := Nat.lt_of_le_of_lt honward.length_le hr
    refine .bind_stays (arguments_agrees h hr₁) fun _ r₂ _ => ?_
    exact .bind_stays (Agrees.expect _ _ r₂).stays fun _ _ _ => .get (.pure _ id)
  · exact .bind_stays (.resolve _ _ _) fun _ _ _ => .pure _ id

theorem primary_agrees (hr : r.items.length ≤ n) : (primary inner).Takes (primary inner') r := by
  refine .get ?_
  dsimp only
  split
  · next hkind => exact literal_agrees _ _ _ (Reader.atEnd_eq_false hkind (by simp))
  · next hkind => exact literal_agrees _ _ _ (Reader.atEnd_eq_false hkind (by simp))
  · next hkind => exact literal_agrees _ _ _ (Reader.atEnd_eq_false hkind (by simp))
  · next hkind =>
    refine .bind_takes (.advance (Reader.atEnd_eq_false hkind (by simp))) fun _ r₁ _ hpast => ?_
    exact named_agrees h _ _ (Nat.lt_of_lt_of_le hpast hr)
  · next hkind =>
    refine .bind_takes (.advance (Reader.atEnd_eq_false hkind (by simp))) fun _ r₁ _ hpast => ?_
    refine .bind_stays (h r₁ (Nat.lt_of_lt_of_le hpast hr)).stays fun _ r₂ _ => ?_
    exact .bind_stays (Agrees.expect _ _ r₂).stays fun _ _ _ => .get (.pure _ id)
  · exact .fail _

theorem suffix_agrees (hr : r.items.length ≤ n) :
    (suffix inner).Agrees (suffix inner') r fun o => o.isSome = true := by
  refine .get ?_
  dsimp only
  split
  · next op hop =>
    have hkind := (UnaryOp.symbol_of_behind hop).2
    refine .bind_takes (.advance (Reader.atEnd_eq_false hkind (by simp))) fun _ _ _ _ => ?_
    exact .get (.pure _ id)
  · refine (Agrees.accept _ r).bind fun accepted r₁ _ hpast => ?_
    cases accepted with
    | false => exact .pure none (by simp)
    | true =>
      have hr₁ := Nat.lt_of_lt_of_le (hpast rfl) hr
      refine .bind_stays (h r₁ hr₁).stays fun _ r₂ _ => ?_
      exact .bind_stays (Agrees.expect _ _ r₂).stays fun _ _ _ => .get (.pure _ (by simp))

theorem suffixed_agrees (hr : r.items.length ≤ n) : (suffixed inner).Takes (suffixed inner') r := by
  refine .bind_takes (primary_agrees h hr) fun _ r₁ honward _ => ?_
  refine .bind_stays ?_ fun _ _ _ => .pure _ id
  exact .many (fun _ hr => suffix_agrees h hr) (Nat.le_trans honward.length_le hr)

omit h in
theorem operatorBefore_agrees (r : Reader) :
    operatorBefore.Agrees operatorBefore r fun o => o.isSome = true := by
  refine .get ?_
  dsimp only
  split
  · next op hop =>
    have hkind := UnaryOp.symbol_of_before hop
    exact .bind_takes (.advance (Reader.atEnd_eq_false hkind (by simp))) fun _ _ _ _ => .pure _ id
  · exact .pure none (by simp)

theorem unary_agrees (hr : r.items.length ≤ n) : (unary inner).Takes (unary inner') r := by
  refine .bind_stays (.many (n := n) (fun r _ => operatorBefore_agrees r) hr) fun _ r₁ honward => ?_
  refine .bind_takes (suffixed_agrees h (Nat.le_trans honward.length_le hr)) ?_
  exact fun _ _ _ _ => .pure _ id

omit h in
theorem operatorAndOperand_agrees (precedence : Nat) {operand operand' : Parse Expr}
    (h : ∀ r : Reader, r.items.length ≤ n → operand.Takes operand' r) (hr : r.items.length ≤ n) :
    (operatorAndOperand precedence operand).Agrees (operatorAndOperand precedence operand') r
      fun o => o.isSome = true := by
  refine .get ?_
  split
  · next op hop =>
    have hkind := BinaryOp.symbol_of_binary (Option.filter_eq_some_iff.mp hop).1
    refine .bind_takes (.advance (Reader.atEnd_eq_false hkind (by simp))) fun _ r₁ honward _ => ?_
    refine .bind_stays (h r₁ (Nat.le_trans honward.length_le hr)).stays fun _ _ _ => .pure _ id
  · exact .pure none (by simp)

theorem operands_agrees (level : Nat) (hr : r.items.length ≤ n) :
    (operands inner level).Takes (operands inner' level) r := by
  induction level generalizing r with
  | zero => exact unary_agrees h hr
  | succ level ih =>
    refine .bind_takes (ih hr) fun _ r₁ honward _ => ?_
    refine .bind_stays ?_ fun _ _ _ => .pure _ id
    exact .many (fun _ hr => operatorAndOperand_agrees _ (fun _ hr => ih hr) hr)
      (Nat.le_trans honward.length_le hr)

theorem assignment_agrees (hr : r.items.length ≤ n) :
    (assignment inner).Takes (assignment inner') r := by
  refine .bind_takes (operands_agrees h 6 hr) fun _ r₁ honward _ => ?_
  refine .bind_stays ?_ fun _ _ _ => .pure _ id
  exact .many (fun _ hr => operatorAndOperand_agrees _ (fun _ hr => operands_agrees h 6 hr) hr)
    (Nat.le_trans honward.length_le hr)

end

/-- As many rounds as there are items suffice. -/
theorem expressionFor_agrees {rounds rounds' : List Item} (hr : r.items.length < rounds.length)
    (hr' : r.items.length < rounds'.length) :
    (expressionFor rounds).Takes (expressionFor rounds') r := by
  induction rounds generalizing rounds' r with
  | nil => exact absurd hr (Nat.not_lt_zero _)
  | cons _ rounds ih =>
    cases rounds' with
    | nil => exact absurd hr' (Nat.not_lt_zero _)
    | cons _ rounds' =>
      refine assignment_agrees (fun r₁ hr₁ => ?_) (Nat.le_refl _)
      exact ih (Nat.lt_of_lt_of_le hr₁ (Nat.le_of_lt_succ hr))
        (Nat.lt_of_lt_of_le hr₁ (Nat.le_of_lt_succ hr'))

theorem expression_agrees (r : Reader) : expression.Takes expression r :=
  .get (expressionFor_agrees (Nat.lt_succ_self _) (Nat.lt_succ_self _))

theorem expression_apply (r : Reader) : expression r = expressionFor r.remaining r :=
  get_bind_apply (fun r => expressionFor r.remaining) r

/-- An expression is an assignment between expressions. -/
theorem expression_eq (hclosed : r.Closed) : expression r = assignment expression r := by
  have hinner : ∀ r₁ : Reader, r₁.items.length < r.items.length →
      (expressionFor r.items).Takes expression r₁ := by
    intro r₁ hr₁
    have h : (expressionFor r.items).Takes (expressionFor r₁.remaining) r₁ :=
      expressionFor_agrees hr₁ (Nat.lt_succ_self _)
    exact h.congr (expression_apply r₁)
  rw [expression_apply, Reader.remaining, expressionFor]
  exact (assignment_agrees hinner (Nat.le_refl _) hclosed).1.symm

/-! ## Attributes, types and declarations -/

theorem arguments_expression_agrees (r : Reader) :
    (arguments expression).Stays (arguments expression) r :=
  arguments_agrees (fun r _ => expression_agrees r) (Nat.lt_succ_self _)

theorem attributeArguments_agrees (r : Reader) :
    attributeArguments.Stays attributeArguments r := by
  refine .bind_stays (Agrees.accept _ r).stays fun accepted r₁ _ => ?_
  split
  · refine .bind_stays (arguments_expression_agrees r₁) fun _ r₂ _ => ?_
    exact .bind_stays (Agrees.expect _ _ r₂).stays fun _ _ _ => .pure _ id
  · exact .pure _ id

theorem spanFrom_agrees (start : Span) (r : Reader) : (spanFrom start).Stays (spanFrom start) r :=
  .keep rfl rfl

theorem oneAttribute_agrees (r : Reader) :
    oneAttribute.Agrees oneAttribute r fun o => o.isSome = true := by
  refine .get ((Agrees.accept _ r).bind fun accepted r₁ _ _ => ?_)
  cases accepted with
  | false => exact .pure none (by simp)
  | true =>
    refine .bind_stays (Agrees.name _ r₁).stays fun _ r₂ _ => ?_
    refine .bind_stays (attributeArguments_agrees r₂) fun _ r₃ _ => ?_
    exact .bind_stays (spanFrom_agrees _ r₃) fun _ _ _ => .pure _ (by simp)

theorem attributes_agrees (r : Reader) : attributes.Stays attributes r :=
  .many (n := r.items.length) (fun r _ => oneAttribute_agrees r) (Nat.le_refl _)

theorem optional_agrees (s : Symbol) (r : Reader) :
    (optional s).Agrees (optional s) r fun o => o.isSome = true := by
  refine (Agrees.accept s r).bind fun accepted r₁ _ _ => ?_
  cases accepted with
  | false => exact .pure none (by simp)
  | true => exact .pure (some ()) (by simp)

theorem stars_agrees (r : Reader) : stars.Stays stars r := by
  rw [stars_eq]
  refine .bind_stays ?_ fun _ _ _ => .pure _ id
  exact .many (n := r.items.length) (fun r _ => optional_agrees .star r) (Nat.le_refl _)

theorem longItem_agrees (r : Reader) :
    longItem.Agrees longItem r fun o => o.isSome = true := by
  refine (Agrees.acceptKind (by simp) r).bind fun accepted r₁ _ _ => ?_
  cases accepted with
  | true => exact .pure (some ()) (by simp)
  | false =>
    refine (Agrees.acceptKind (by simp) r₁).bind fun accepted r₂ _ _ => ?_
    cases accepted with
    | true => exact .pure (some ()) (by simp)
    | false => exact .pure none (by simp)

theorem longRest_agrees (r : Reader) : longRest.Stays longRest r := by
  rw [longRest_eq]
  refine .bind_stays ?_ fun _ _ _ => .pure _ id
  exact .many (n := r.items.length) (fun r _ => longItem_agrees r) (Nat.le_refl _)

theorem typeName_agrees (r : Reader) : typeName.Takes typeName r := by
  refine .get ?_
  split
  · next base hbase =>
    have hend : r.atEnd = false := by
      refine beq_eq_false_iff_ne.mpr fun hkind => ?_
      rw [hkind] at hbase
      cases hbase
    refine .bind_takes (.advance hend) fun _ r₁ _ _ => ?_
    have hstars (r : Reader) : Stays (do return (⟨base, ← stars⟩ : VarType))
        (do return (⟨base, ← stars⟩ : VarType)) r :=
      .bind_stays (stars_agrees r) fun _ _ _ => .pure _ id
    dsimp only
    split
    · exact .bind_stays (longRest_agrees r₁) fun _ r₂ _ => hstars r₂
    · exact hstars r₁
  · exact .fail _

theorem parameterBracket_agrees (r : Reader) :
    parameterBracket.Agrees parameterBracket r fun o => o.isSome = true := by
  refine (Agrees.accept _ r).bind fun accepted r₁ _ _ => ?_
  cases accepted with
  | false => exact .pure none (by simp)
  | true =>
    have hclose (r : Reader) : Agrees (do expect .rightBracket; return some ())
        (do expect .rightBracket; return some ()) r
        fun o : Option Unit => o.isSome = true ∧ ¬ true = true :=
      .bind_stays (Agrees.expect _ _ r).stays fun _ _ _ => .pure _ (by simp)
    refine .get ?_
    dsimp only
    split
    · exact .bind_stays (expression_agrees r₁).stays fun _ r₂ _ => hclose r₂
    · exact hclose r₁

theorem parameterBrackets_agrees (r : Reader) : parameterBrackets.Stays parameterBrackets r := by
  rw [parameterBrackets_eq]
  refine .bind_stays ?_ fun _ _ _ => .pure _ id
  exact .many (n := r.items.length) (fun r _ => parameterBracket_agrees r) (Nat.le_refl _)

/-- To look at the current token changes nothing. -/
theorem currentSpan_agrees {α : Type} {P : α → Prop} {next next' : Span → Parse α}
    (h : (next r.current.span).Agrees (next' r.current.span) r P) :
    (currentSpan >>= next).Agrees (currentSpan >>= next') r P := h

theorem parameter_agrees (type : VarType) (r : Reader) :
    (parameter type).Takes (parameter type) r := by
  refine .bind_stays (stars_agrees r) fun _ r₁ _ => currentSpan_agrees ?_
  refine .bind_takes (.name _ r₁) fun _ r₂ _ _ => ?_
  exact .bind_stays (parameterBrackets_agrees r₂) fun _ r₃ _ => .declare _ _ _ r₃

theorem parameterItem_agrees (r : Reader) :
    parameterItem.Agrees parameterItem r fun o => o.isSome = true := by
  refine (Agrees.accept _ r).bind fun accepted r₁ _ _ => ?_
  cases accepted with
  | false => exact .pure none (by simp)
  | true =>
    refine .bind_stays (typeName_agrees r₁).stays fun type r₂ _ => ?_
    exact .bind_stays (parameter_agrees type r₂).stays fun _ _ _ => .pure _ (by simp)

theorem parameters_agrees (r : Reader) : parameters.Stays parameters r := by
  rw [parameters_eq]
  refine .get ?_
  split
  · exact .pure _ id
  · refine .bind_stays (typeName_agrees r).stays fun type r₁ _ => .get ?_
    split
    · exact .pure _ id
    · refine .bind_stays (parameter_agrees type r₁).stays fun _ r₂ _ => ?_
      refine .bind_stays ?_ fun _ _ _ => .pure _ id
      exact .many (n := r₂.items.length) (fun r _ => parameterItem_agrees r) (Nat.le_refl _)

theorem arrayBracket_agrees (r : Reader) :
    arrayBracket.Agrees arrayBracket r fun o => o.isSome = true := by
  refine (Agrees.accept _ r).bind fun accepted r₁ _ _ => ?_
  cases accepted with
  | false => exact .pure none (by simp)
  | true =>
    refine .bind_stays (expression_agrees r₁).stays fun _ r₂ _ => ?_
    exact .bind_stays (Agrees.expect _ _ r₂).stays fun _ _ _ => .pure _ (by simp)

theorem arrayBrackets_agrees (r : Reader) : arrayBrackets.Stays arrayBrackets r := by
  rw [arrayBrackets_eq]
  refine .bind_stays ?_ fun _ _ _ => .pure _ id
  exact .many (n := r.items.length) (fun r _ => arrayBracket_agrees r) (Nat.le_refl _)

theorem initializer_agrees (r : Reader) : initializer.Stays initializer r := by
  refine .bind_stays (Agrees.accept _ r).stays fun accepted r₁ _ => ?_
  split
  · exact .bind_stays (expression_agrees r₁).stays fun _ _ _ => .pure _ id
  · exact .pure _ id

theorem declarator_agrees (type : VarType) (r : Reader) :
    (declarator type).Takes (declarator type) r := by
  refine currentSpan_agrees (.bind_stays (stars_agrees r) fun _ r₁ _ => currentSpan_agrees ?_)
  refine .bind_takes (.name _ r₁) fun _ r₂ _ _ => ?_
  refine .bind_stays (arrayBrackets_agrees r₂) fun _ r₃ _ => ?_
  refine .bind_stays (initializer_agrees r₃) fun _ r₄ _ => ?_
  refine .bind_stays (.declare _ _ _ r₄) fun _ r₅ _ => ?_
  exact .bind_stays (spanFrom_agrees _ r₅) fun _ _ _ => .pure _ id

theorem declaration_agrees (r : Reader) : declaration.Takes declaration r := by
  refine .bind_takes (typeName_agrees r) fun type r₁ _ _ => ?_
  have hdeclarators := Agrees.commaSeparated (n := r₁.items.length)
    (fun r _ => declarator_agrees type r) (Nat.le_refl _)
  refine .bind_stays hdeclarators.stays fun _ r₂ _ => ?_
  exact .bind_stays (Agrees.expect _ _ r₂).stays fun _ _ _ => .pure _ id

/-! ## Where reading goes on -/

/-- Where a statement failed at its first token, that token is passed over. -/
theorem recoverStatement_past {r₁ : Reader} (hend : r.atEnd = false)
    (hbrace : r.seesSymbol .rightBrace = false) (h : r.Onward r₁) :
    r.Onward (recoverStatement r.current.span r₁) ∧
      r.Past (recoverStatement r.current.span r₁) := by
  unfold recoverStatement
  dsimp only
  split
  · next hskip =>
    simp only [Bool.and_eq_true, Bool.not_eq_eq_eq_not, Bool.not_true] at hskip
    have hskipped := h.closed.skip_onward
    have honward := hskipped.closed.skipUntil_onward endsStatement
    exact ⟨h.trans (hskipped.trans honward),
      h.past ((h.closed.skip_past hskip.1.2).onward honward)⟩
  · next hskip =>
    have honward := h.closed.skipUntil_onward endsStatement
    refine ⟨h.trans honward, ?_⟩
    rcases h.past_or with hpast | ⟨-, hcurrent⟩
    · exact hpast.onward honward
    · -- the statement took nothing, so the reader is still at its first token
      refine absurd ?_ hskip
      unfold Reader.atEnd Reader.seesSymbol Reader.sees at *
      rw [hcurrent]
      simp [hend, hbrace]

/-- Where a function failed, a token is passed over. -/
theorem recoverFunction_past {r₁ : Reader} (hend : r.atEnd = false) (h : r.Onward r₁) :
    r.Onward (recoverFunction r₁) ∧ r.Past (recoverFunction r₁) := by
  unfold recoverFunction
  dsimp only
  split
  · next hatEnd =>
    have honward := h.closed.skipUntil_onward startsFunction
    refine ⟨h.trans honward, ?_⟩
    rcases h.past_or with hpast | ⟨-, hcurrent⟩
    · exact hpast.onward honward
    · -- the end of the file was not there before
      unfold Reader.atEnd at hend hatEnd
      rw [hcurrent, hend] at hatEnd
      cases hatEnd
  · next hatEnd =>
    have hskipped := h.closed.skip_onward
    have honward := hskipped.closed.skipUntil_onward startsFunction
    exact ⟨h.trans (hskipped.trans honward),
      h.past ((h.closed.skip_past (Bool.eq_false_iff.mpr hatEnd)).onward honward)⟩

/-! ## Statements -/

theorem initClause_agrees (r : Reader) : initClause.Takes initClause r := by
  refine currentSpan_agrees ((Agrees.accept _ r).bind fun accepted r₂ _ _ => ?_)
  cases accepted with
  | true => exact .pure _ (by simp)
  | false =>
    refine .get (.mono (P := fun _ => True) ?_ fun _ _ => trivial)
    split
    · refine .bind_takes (declaration_agrees r₂) fun _ r₃ _ _ => ?_
      exact .bind_stays (spanFrom_agrees _ r₃) fun _ _ _ => .pure _ id
    · refine .bind_takes (expression_agrees r₂) fun _ r₃ _ _ => ?_
      exact .bind_stays (Agrees.expect _ _ r₃).stays fun _ _ _ => .pure _ id

theorem clause_agrees (stops : List Symbol) (r : Reader) :
    (clause stops).Stays (clause stops) r := by
  refine .get ?_
  split
  · exact .pure _ id
  · exact .bind_stays (expression_agrees r).stays fun _ _ _ => .pure _ id

theorem headerAttributes_agrees (r : Reader) : headerAttributes.Stays headerAttributes r := by
  refine .bind_stays (Agrees.accept _ r).stays fun accepted r₁ _ => ?_
  split
  · exact attributes_agrees r₁
  · exact .pure _ id

theorem condition_agrees (place : Place) (hend : r.atEnd = false) :
    (condition place).Takes (condition place) r := by
  refine .bind_takes (.advance hend) fun _ r₁ _ _ => ?_
  refine .bind_stays (Agrees.expect _ _ r₁).stays fun _ r₂ _ => ?_
  refine .bind_stays (expression_agrees r₂).stays fun _ r₃ _ => ?_
  exact .bind_stays (Agrees.expect _ _ r₃).stays fun _ _ _ => .pure _ id

theorem optionalValue_agrees (r : Reader) : optionalValue.Stays optionalValue r := by
  refine .get ?_
  split
  · exact .pure _ id
  · exact .bind_stays (expression_agrees r).stays fun _ _ _ => .pure _ id

section

variable {inner inner' : Parse Stmt} {n : Nat}
  (h : ∀ r : Reader, r.items.length < n → inner.Takes inner' r)
include h

/-- A statement of a block, also one that cannot be read, takes an item. -/
theorem blockItem_agrees (hr : r.items.length < n) :
    (blockItem inner).Agrees (blockItem inner') r fun o => o.isSome = true := by
  rw [blockItem_eq, blockItem_eq]
  refine .itemUnless fun hgo => .recovering (h r hr) fun r₁ h₁ => ?_
  obtain ⟨hbrace, hend⟩ := Bool.or_eq_false_iff.mp hgo
  exact recoverStatement_past hend hbrace h₁

theorem block_agrees (hr : r.items.length ≤ n) : (block inner).Takes (block inner') r := by
  refine currentSpan_agrees (.bind_takes (.expect _ _ r) fun _ r₂ _ hpast => ?_)
  have hr₂ : r₂.items.length < n := Nat.lt_of_lt_of_le hpast hr
  refine .bind_stays ?_ fun _ r₃ _ => ?_
  · refine Agrees.inScope fun r₃ hremaining => ?_
    have hr₃ : r₃.items = r₂.items := (List.cons.inj hremaining).2
    refine .many (n := r₂.items.length) (fun r hr => ?_) (Nat.le_of_eq (congrArg _ hr₃))
    exact blockItem_agrees h (Nat.lt_of_le_of_lt hr hr₂)
  · refine .bind_stays (Agrees.expect _ _ r₃).stays fun _ r₄ _ => ?_
    exact .bind_stays (spanFrom_agrees _ r₄) fun _ _ _ => .pure _ id

theorem forRest_agrees (hr : r.items.length < n) : (forRest inner).Stays (forRest inner') r := by
  refine .bind_stays (initClause_agrees r).stays fun _ r₁ h₁ => ?_
  refine .bind_stays (clause_agrees _ r₁) fun _ r₂ h₂ => ?_
  refine .bind_stays (Agrees.expect _ _ r₂).stays fun _ r₃ h₃ => ?_
  refine .bind_stays (clause_agrees _ r₃) fun _ r₄ h₄ => ?_
  refine .bind_stays (headerAttributes_agrees r₄) fun _ r₅ h₅ => ?_
  refine .bind_stays (Agrees.expect _ _ r₅).stays fun _ r₆ h₆ => ?_
  have honward := ((((h₁.trans h₂).trans h₃).trans h₄).trans h₅).trans h₆
  refine .bind_stays (h r₆ (Nat.lt_of_le_of_lt honward.length_le hr)).stays ?_
  exact fun _ _ _ => .pure _ id

theorem forStatement_agrees (marks : List Attribute) (hend : r.atEnd = false)
    (hr : r.items.length ≤ n) :
    (forStatement inner marks).Takes (forStatement inner' marks) r := by
  refine currentSpan_agrees (.bind_takes (.advance hend) fun _ r₁ _ hpast => ?_)
  have hr₁ : r₁.items.length < n := Nat.lt_of_lt_of_le hpast hr
  refine .bind_stays (Agrees.expect _ _ r₁).stays fun _ r₂ honward => ?_
  refine .bind_stays (.inScope fun r₃ hremaining => ?_) fun _ r₃ _ => ?_
  · have hr₃ : r₃.items = r₂.items := (List.cons.inj hremaining).2
    refine forRest_agrees h ?_
    rw [hr₃]
    exact Nat.lt_of_le_of_lt honward.length_le hr₁
  · exact .bind_stays (spanFrom_agrees _ r₃) fun _ _ _ => .pure _ id

/-- A statement takes a token before the statements inside it are read. -/
theorem statementRest_agrees (marks : List Attribute) (hr : r.items.length ≤ n) :
    (statementRest inner marks).Takes (statementRest inner' marks) r := by
  have hhead {r : Reader} (start : Span) (f : StmtHead → Stmt) :
      Stays (do return f ⟨← spanFrom start, marks⟩) (do return f ⟨← spanFrom start, marks⟩) r :=
    .bind_stays (spanFrom_agrees start r) fun _ _ _ => .pure _ id
  refine currentSpan_agrees (.get ?_)
  split
  · next hkind => exact forStatement_agrees h marks (Reader.atEnd_eq_false hkind (by simp)) hr
  · refine .bind_takes (block_agrees h hr) fun b r₁ _ _ => ?_
    exact hhead _ fun head => .block head b.statements
  · next hkind =>
    have hend := Reader.atEnd_eq_false hkind (by simp)
    refine .bind_takes (condition_agrees _ hend) fun c r₁ _ hpast => ?_
    have hr₁ : r₁.items.length < n := Nat.lt_of_lt_of_le hpast hr
    refine .bind_stays (h r₁ hr₁).stays fun s r₂ h₂ => ?_
    refine .bind_stays (Agrees.acceptKind (by simp) r₂).stays fun accepted r₃ h₃ => ?_
    split
    · have hr₃ := Nat.lt_of_le_of_lt (h₂.trans h₃).length_le hr₁
      refine .bind_stays (h r₃ hr₃).stays fun t r₄ _ => ?_
      exact hhead _ fun head => .ifElse head c s t
    · exact hhead _ fun head => .ifThen head c s
  · next hkind =>
    have hend := Reader.atEnd_eq_false hkind (by simp)
    refine .bind_takes (condition_agrees _ hend) fun c r₁ _ hpast => ?_
    refine .bind_stays (h r₁ (Nat.lt_of_lt_of_le hpast hr)).stays fun s r₂ _ => ?_
    exact hhead _ fun head => .whileLoop head c s
  · next hkind =>
    refine .bind_takes (.advance (Reader.atEnd_eq_false hkind (by simp))) fun _ r₁ _ _ => ?_
    refine .bind_stays (optionalValue_agrees r₁) fun value r₂ _ => ?_
    refine .bind_stays (Agrees.expect _ _ r₂).stays fun _ r₃ _ => ?_
    exact hhead _ fun head => .returns head value
  · next hkind =>
    refine .bind_takes (.advance (Reader.atEnd_eq_false hkind (by simp))) fun _ r₁ _ _ => ?_
    exact hhead _ .empty
  · refine .bind_takes (declaration_agrees r) fun ds r₁ _ _ => ?_
    exact hhead _ fun head => .declaration head ds
  · refine .bind_takes (expression_agrees r) fun x r₁ _ _ => ?_
    refine .bind_stays (Agrees.expect _ _ r₁).stays fun _ r₂ _ => ?_
    exact hhead _ fun head => .expression head x

end

/-- As many rounds as there are items suffice. -/
theorem statementFor_agrees {rounds rounds' : List Item} (hr : r.items.length < rounds.length)
    (hr' : r.items.length < rounds'.length) :
    (statementFor rounds).Takes (statementFor rounds') r := by
  induction rounds generalizing rounds' r with
  | nil => exact absurd hr (Nat.not_lt_zero _)
  | cons _ rounds ih =>
    cases rounds' with
    | nil => exact absurd hr' (Nat.not_lt_zero _)
    | cons _ rounds' =>
      refine .bind_stays (attributes_agrees r) fun marks r₁ honward => ?_
      refine statementRest_agrees (fun r₂ hr₂ => ?_) marks honward.length_le
      exact ih (Nat.lt_of_lt_of_le hr₂ (Nat.le_of_lt_succ hr))
        (Nat.lt_of_lt_of_le hr₂ (Nat.le_of_lt_succ hr'))

theorem statement_agrees (r : Reader) : statement.Takes statement r :=
  .get (statementFor_agrees (Nat.lt_succ_self _) (Nat.lt_succ_self _))

theorem statement_apply (r : Reader) : statement r = statementFor r.remaining r :=
  get_bind_apply (fun r => statementFor r.remaining) r

/-- A statement is attributes and what follows them, with statements inside it. -/
theorem statement_eq (hclosed : r.Closed) :
    statement r = (do statementRest statement (← attributes)) r := by
  have hinner : ∀ r₁ : Reader, r₁.items.length < r.items.length →
      (statementFor r.items).Takes statement r₁ := by
    intro r₁ hr₁
    have h : (statementFor r.items).Takes (statementFor r₁.remaining) r₁ :=
      statementFor_agrees hr₁ (Nat.lt_succ_self _)
    exact h.congr (statement_apply r₁)
  have hrest : Takes (do statementRest (statementFor r.items) (← attributes))
      (do statementRest statement (← attributes)) r :=
    .bind_stays (attributes_agrees r) fun marks r₁ honward =>
      statementRest_agrees hinner marks honward.length_le
  rw [statement_apply, Reader.remaining, statementFor]
  exact (hrest hclosed).1.symm

/-! ## Functions -/

theorem functionRest_agrees (r : Reader) : functionRest.Takes functionRest r := by
  refine .bind_takes (.expect _ _ r) fun _ r₁ _ _ => ?_
  refine .bind_stays (parameters_agrees r₁) fun _ r₂ _ => ?_
  refine .bind_stays (Agrees.expect _ _ r₂).stays fun _ r₃ _ => ?_
  have hblock := block_agrees (fun r (_ : r.items.length < r₃.items.length) => statement_agrees r)
    (Nat.le_refl _)
  exact .bind_stays hblock.stays fun _ _ _ => .pure _ id

theorem function_agrees (r : Reader) : function.Takes function r := by
  refine .bind_stays (attributes_agrees r) fun _ r₁ _ => currentSpan_agrees ?_
  refine .bind_takes (typeName_agrees r₁) fun _ r₂ _ _ => ?_
  refine .bind_stays (Agrees.name _ r₂).stays fun _ r₃ _ => ?_
  refine .bind_stays (Agrees.inScope fun r₄ _ => functionRest_agrees r₄).stays fun _ r₄ _ => ?_
  exact .bind_stays (spanFrom_agrees _ r₄) fun _ _ _ => .pure _ id

/-- A function, also one that cannot be read, takes an item. -/
theorem programItem_agrees (r : Reader) :
    programItem.Agrees programItem r fun o => o.isSome = true := by
  rw [programItem_eq]
  exact .itemUnless fun hend => .recovering (function_agrees r) fun r₁ h₁ =>
    recoverFunction_past hend h₁

/-! ## The end of reading -/

/-- A step that is recovered from always has a result. -/
theorem exists_recovering {α : Type} (step : Parse α) (recover : Reader → Reader) (r : Reader) :
    ∃ o r', recovering step recover r = (.ok o, r') := by
  unfold recovering
  rcases step r with ⟨failure | a, r₁⟩
  · exact ⟨none, _, rfl⟩
  · exact ⟨some a, _, rfl⟩

/-- Where there is an item left it is there, if only to be passed over. -/
theorem itemUnless_cases {α : Type} (stop : Reader → Bool) (step : Parse α)
    (recover : Reader → Reader → Reader) (r : Reader) :
    (stop r = true ∧ itemUnless stop (fun r => recovering step (recover r)) r = (.ok none, r)) ∨
      ∃ o r', itemUnless stop (fun r => recovering step (recover r)) r = (.ok (some o), r') := by
  have hget : itemUnless stop (fun r => recovering step (recover r)) r =
      (if stop r then pure none else do return some (← recovering step (recover r))) r :=
    get_bind_apply _ r
  rw [hget]
  by_cases hstop : stop r = true
  · rw [if_pos hstop]
    exact .inl ⟨hstop, rfl⟩
  · obtain ⟨o, r', hrun⟩ := exists_recovering step (recover r) r
    rw [if_neg hstop, bind_apply, hrun]
    exact .inr ⟨o, r', rfl⟩

/-- A repetition whose rounds never fail has a result, and it stops where a round yields nothing. -/
theorem exists_of_repeats {α : Type} {item : Parse (Option α)} {N : Reader → Prop}
    (hitem : ∀ r, (N r ∧ item r = (.ok none, r)) ∨ ∃ o r', item r = (.ok (some o), r'))
    {r r' : Reader} {result : Except Failure (List α)} (h : Repeats item r result r') :
    (∃ found, result = .ok found) ∧ N r' := by
  induction h with
  | @stop r r' h =>
    rcases hitem r with ⟨hstop, hrun⟩ | ⟨o, r₁, hrun⟩
    · rw [h] at hrun
      obtain ⟨-, rfl⟩ := Prod.mk.inj hrun
      exact ⟨⟨[], rfl⟩, hstop⟩
    · rw [h] at hrun
      cases hrun
  | @fail r r' failure h =>
    rcases hitem r with ⟨-, hrun⟩ | ⟨o, r₁, hrun⟩ <;> rw [h] at hrun <;> cases hrun
  | @round r r₁ r' a result _ _ _ _ ih =>
    obtain ⟨⟨found, rfl⟩, hstop⟩ := ih
    exact ⟨⟨a :: found, rfl⟩, hstop⟩

/-- The loop of that step without a bound on its rounds. -/
def Loops {α : Type} (item : Parse (Option α)) (r : Reader) : Prop :=
  Repeats item r (many item r).1 (many item r).2

/-- At the reader `r` the loops of the grammar end by themselves, each round of them takes an item,
and the recursion is the one of the grammar. What the rounds are counted by does not matter. -/
structure Ends (r : Reader) : Prop where
  /-- The functions of a program, whether they can be read or not. -/
  functions : Loops programItem r ∧
    ∃ found r', many programItem r = (.ok found, r') ∧ r'.atEnd = true
  /-- The statements of a block, whether they can be read or not. -/
  statements : Loops (blockItem statement) r ∧
    ∃ found r', many (blockItem statement) r = (.ok found, r') ∧
      (r'.seesSymbol .rightBrace = true ∨ r'.atEnd = true)
  /-- Where reading goes on behind a function that cannot be read. -/
  recoverFunction : (r.atEnd = false → r.Past (recoverFunction r)) ∧
    ∀ r', r.Onward r' → Reader.Skips startsFunction r' (r'.skipUntil startsFunction)
  /-- Where reading goes on behind a statement that cannot be read. -/
  recoverStatement :
    (r.atEnd = false → r.seesSymbol .rightBrace = false →
      r.Past (recoverStatement r.current.span r)) ∧
    ∀ r', r.Onward r' → Reader.Skips endsStatement r' (r'.skipUntil endsStatement)
  attributes : Loops oneAttribute r
  stars : Loops (optional .star) r
  longWords : Loops longItem r
  parameters : Loops parameterItem r
  parameterBrackets : Loops parameterBracket r
  declarators : ∀ type, Loops (separated (declarator type)) r
  arrayBrackets : Loops arrayBracket r
  arguments : Loops (separated expression) r
  suffixes : Loops (suffix expression) r
  operatorsBefore : Loops operatorBefore r
  operators : ∀ precedence level,
    Loops (operatorAndOperand precedence (operands expression level)) r
  /-- A statement consists of statements. -/
  statement_eq : statement r = (do statementRest statement (← Grammar.attributes)) r
  /-- An expression consists of expressions. -/
  expression_eq : expression r = assignment expression r
  function_onward : r.Onward (function r).2
  statement_onward : r.Onward (statement r).2
  expression_onward : r.Onward (expression r).2

/-- Reading ends wherever the end of the file is the last item that lies ahead. -/
theorem ends_of_closed {r : Reader} (h : r.Closed) : Ends r := by
  have hseparated {α : Type} {item : Parse α} (hitem : ∀ r, item.Takes item r) (r : Reader) :
      (separated item).Agrees (separated item) r fun o => o.isSome = true :=
    .separated (n := r.items.length) (fun r _ => hitem r) (Nat.le_refl _)
  have hexpression (r : Reader) (n : Nat) : ∀ r : Reader, r.items.length < n →
      expression.Takes expression r := fun r _ => expression_agrees r
  have hprogram : Loops programItem r := many_repeats programItem_agrees h
  have hblock : Loops (blockItem statement) r :=
    many_repeats (fun r => blockItem_agrees (fun r _ => statement_agrees r) (Nat.lt_succ_self _)) h
  constructor
  case functions =>
    obtain ⟨⟨found, hfound⟩, hend⟩ := exists_of_repeats (itemUnless_cases _ _ _) hprogram
    exact ⟨hprogram, found, _, Prod.ext hfound rfl, hend⟩
  case statements =>
    obtain ⟨⟨found, hfound⟩, hstop⟩ := exists_of_repeats (itemUnless_cases _ _ _) hblock
    exact ⟨hblock, found, _, Prod.ext hfound rfl, Bool.or_eq_true_iff.mp hstop⟩
  case recoverFunction =>
    exact ⟨fun hend => (recoverFunction_past hend (.refl h)).2,
      fun r' honward => honward.closed.skipUntil_skips _⟩
  case recoverStatement =>
    exact ⟨fun hend hbrace => (recoverStatement_past hend hbrace (.refl h)).2,
      fun r' honward => honward.closed.skipUntil_skips _⟩
  case attributes => exact many_repeats oneAttribute_agrees h
  case stars => exact many_repeats (optional_agrees .star) h
  case longWords => exact many_repeats longItem_agrees h
  case parameters => exact many_repeats parameterItem_agrees h
  case parameterBrackets => exact many_repeats parameterBracket_agrees h
  case declarators => exact fun type => many_repeats (hseparated (declarator_agrees type)) h
  case arrayBrackets => exact many_repeats arrayBracket_agrees h
  case arguments => exact many_repeats (hseparated expression_agrees) h
  case suffixes =>
    exact many_repeats (fun r => suffix_agrees (hexpression r r.items.length) (Nat.le_refl _)) h
  case operatorsBefore => exact many_repeats operatorBefore_agrees h
  case operators =>
    intro precedence level
    refine many_repeats (fun r => ?_) h
    exact operatorAndOperand_agrees precedence
      (fun r hr => operands_agrees (hexpression r _) level hr) (Nat.le_refl _)
  case statement_eq => exact statement_eq h
  case expression_eq => exact expression_eq h
  case function_onward => exact (function_agrees r h).2.1
  case statement_onward => exact (statement_agrees r h).2.1
  case expression_onward => exact (expression_agrees r h).2.1

end Grammar

/-- **Reading ends on every source text.** From its first token on, the loop over the functions
comes to the end. At every later reader each round of a loop takes an item, also one in which a
function or a statement cannot be read, and so does each token that recovery passes over; the loops
end by themselves, and recursion goes as deep as the grammar does. -/
theorem reading_ends (source : String) (r : Reader) (h : Reader.ofSource source = .ok r) :
    (∃ found r', Parse.many Grammar.programItem r = (.ok found, r') ∧ r'.atEnd = true) ∧
      ∀ r', r.Onward r' → Grammar.Ends r' := by
  have hclosed := (Reader.sound_of_ofSource h).1.closed
  exact ⟨(Grammar.ends_of_closed hclosed).functions.2,
    fun r' honward => Grammar.ends_of_closed honward.closed⟩

/-- A fault and stray tokens behind the first token. -/
theorem reading_ends_malformed : ∃ r, Reader.ofSource "void f() \x7b ) $ ; for ( int" = .ok r ∧
    (∃ found r', Parse.many Grammar.programItem r = (.ok found, r') ∧ r'.atEnd = true) ∧
      ∀ r', r.Onward r' → Grammar.Ends r' := by
  have hfirst : (Reader.ofSource "void f() \x7b ) $ ; for ( int").isOk = true := by decide +kernel
  cases h : Reader.ofSource "void f() \x7b ) $ ; for ( int" with
  | error f =>
    rw [h] at hfirst
    cases hfirst
  | ok r => exact ⟨r, rfl, reading_ends _ r h⟩

end LoopNest
