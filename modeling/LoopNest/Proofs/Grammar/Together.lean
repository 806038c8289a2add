import LoopNest.Proofs.Grammar.Parallel
import LoopNest.Proofs.Grammar.Progress

/-!
# The same program from two texts

What the grammar reads depends on the words of a text only, not on where they stand.

* `Grammar.expression_parallel`, `Grammar.statement_parallel`, `Grammar.function_parallel`: two
  texts with the same words give the same trees without places, one lemma for each reader of the
  grammar.
* `Grammar.recoverStatement_parallel`: reading goes on at the same place behind a problem.
* `Program.read_parallel`: two texts with the same words give the same program, or the same
  problems.
-/

namespace LoopNest

namespace Grammar

open Parse

/-! ## Expressions -/

theorem literal_parallel (value : Option Literal) (otherwise : Problem.Cause) (span span' : Span)
    (r r' : Reader) : (literal value otherwise span).Parallel Expr.unplaced
      (literal value otherwise span') r r' := by
  cases value with
  | none => exact .fail _
  | some v => exact (Parallel.advance r r').bind fun _ _ _ _ _ => .pure rfl

section

variable {inner inner' : Parse Expr} (h : ∀ r r', inner.Parallel Expr.unplaced inner' r r')
  (r r' : Reader)
include h

theorem arguments_parallel :
    (arguments inner).Parallel (List.map Expr.unplaced) (arguments inner') r r' := by
  refine .get fun hr => ?_
  rw [hr.seesSymbol_eq]
  exact .ite (fun _ => .pure rfl) fun _ => .commaSeparated h r r'

theorem named_parallel (name : String) (start start' : Span) :
    (named inner name start).Parallel Expr.unplaced (named inner' name start') r r' := by
  refine (Parallel.accept _ r r').bind fun b b' r₁ r₁' hb => ?_
  obtain rfl : b = b' := hb
  refine .ite (fun _ => ?_) fun _ => ?_
  · refine (arguments_parallel h r₁ r₁').bind fun args args' r₂ r₂' hargs => ?_
    refine (Parallel.expect _ _ r₂ r₂').bind fun _ _ _ _ _ => .get fun _ => .pure ?_
    rw [Expr.unplaced_call, Expr.unplaced_call, hargs]
  · refine (Parallel.resolve _ _ _ r₁ r₁').bind fun v v' _ _ hv => .pure ?_
    obtain rfl : v = v' := hv
    rfl

theorem primary_parallel : (primary inner).Parallel Expr.unplaced (primary inner') r r' := by
  refine .get fun hr => ?_
  dsimp only
  rw [hr.kind_eq, hr.lexeme_eq]
  generalize r'.current.kind = kind
  split
  · exact literal_parallel _ _ _ _ r r'
  · exact literal_parallel _ _ _ _ r r'
  · exact literal_parallel _ _ _ _ r r'
  · exact (Parallel.advance r r').bind fun _ _ r₁ r₁' _ => named_parallel h r₁ r₁' _ _ _
  · refine (Parallel.advance r r').bind fun _ _ r₁ r₁' _ => ?_
    refine (h r₁ r₁').bind fun x x' r₂ r₂' hx => ?_
    refine (Parallel.expect _ _ r₂ r₂').bind fun _ _ _ _ _ => .get fun _ => .pure ?_
    rw [Expr.unplaced_parentheses, Expr.unplaced_parentheses, hx]
  · exact .fail _

theorem suffix_parallel :
    (suffix inner).Parallel (Option.map Expr.Suffix.unplaced) (suffix inner') r r' := by
  refine .get fun hr => ?_
  dsimp only
  rw [hr.kind_eq]
  split
  · exact (Parallel.advance r r').bind fun _ _ _ _ _ => .get fun _ => .pure rfl
  · refine (Parallel.accept _ r r').bind fun b b' r₁ r₁' hb => ?_
    obtain rfl : b = b' := hb
    refine .ite (fun _ => ?_) fun _ => .pure rfl
    refine (h r₁ r₁').bind fun i i' r₂ r₂' hi => ?_
    refine (Parallel.expect _ _ r₂ r₂').bind fun _ _ _ _ _ => .get fun _ => .pure ?_
    simp only [Option.map_some, Expr.Suffix.unplaced, hi]

theorem suffixed_parallel : (suffixed inner).Parallel Expr.unplaced (suffixed inner') r r' := by
  refine (primary_parallel h r r').bind fun x x' r₁ r₁' hx => ?_
  refine (Parallel.many (suffix_parallel h) r₁ r₁').bind fun ss ss' _ _ hss => .pure ?_
  exact Expr.unplaced_withSuffixes hx hss

omit h in
theorem operatorBefore_parallel :
    operatorBefore.Parallel (Option.map Prod.fst) operatorBefore r r' := by
  refine .get fun hr => ?_
  dsimp only
  rw [hr.kind_eq]
  split
  · exact (Parallel.advance r r').bind fun _ _ _ _ _ => .pure rfl
  · exact .pure rfl

theorem unary_parallel : (unary inner).Parallel Expr.unplaced (unary inner') r r' := by
  refine (Parallel.many operatorBefore_parallel r r').bind fun ops ops' r₁ r₁' hops => ?_
  refine (suffixed_parallel h r₁ r₁').bind fun x x' _ _ hx => .pure ?_
  exact Expr.unplaced_withOperatorsBefore hops hx

omit h in
theorem operatorAndOperand_parallel (precedence : Nat) {operand operand' : Parse Expr}
    (h : ∀ r r', operand.Parallel Expr.unplaced operand' r r') (r r' : Reader) :
    (operatorAndOperand precedence operand).Parallel (Option.map Expr.unplacedOperand)
      (operatorAndOperand precedence operand') r r' := by
  refine .get fun hr => ?_
  rw [hr.kind_eq]
  split
  · next op _ =>
    refine (Parallel.advance r r').bind fun _ _ r₁ r₁' _ => ?_
    refine (h r₁ r₁').bind fun x x' _ _ hx => .pure ?_
    exact congrArg (fun x => some (op, x)) hx
  · exact .pure rfl

theorem operands_parallel (level : Nat) :
    (operands inner level).Parallel Expr.unplaced (operands inner' level) r r' := by
  induction level generalizing r r' with
  | zero => exact unary_parallel h r r'
  | succ level ih =>
    refine (ih r r').bind fun x x' r₁ r₁' hx => ?_
    refine (Parallel.many (operatorAndOperand_parallel _ ih) r₁ r₁').bind
      fun rest rest' _ _ hrest => .pure ?_
    exact Expr.unplaced_joinLeft hx hrest

theorem assignment_parallel :
    (assignment inner).Parallel Expr.unplaced (assignment inner') r r' := by
  have hoperand (r r' : Reader) := operands_parallel h r r' 6
  refine (hoperand r r').bind fun x x' r₁ r₁' hx => ?_
  refine (Parallel.many (operatorAndOperand_parallel 1 hoperand) r₁ r₁').bind
    fun rest rest' _ _ hrest => .pure ?_
  exact Expr.unplaced_joinRight hx hrest

end

theorem expression_parallel (r r' : Reader) :
    expression.Parallel Expr.unplaced expression r r' := by
  have hrounds (rounds rounds' : List Item) (hlength : rounds.length = rounds'.length)
      (r r' : Reader) :
      (expressionFor rounds).Parallel Expr.unplaced (expressionFor rounds') r r' := by
    induction rounds generalizing rounds' r r' with
    | nil =>
      obtain rfl := List.eq_nil_of_length_eq_zero hlength.symm
      exact .fail _
    | cons _ rounds ih =>
      obtain ⟨_, rounds', rfl⟩ := List.exists_cons_of_length_eq_add_one hlength.symm
      exact assignment_parallel (ih rounds' (Nat.succ.inj hlength)) r r'
  exact .get fun hr => hrounds _ _ hr.length_eq r r'

/-! ## Attributes, types and declarations -/

/-- The place of something, of which nothing is said. -/
def noPlace (_ : Span) : Unit := ()

theorem spanFrom_parallel (start start' : Span) (r r' : Reader) :
    (spanFrom start).Parallel noPlace (spanFrom start') r r' := .get fun _ => .pure rfl

theorem currentSpan_parallel (r r' : Reader) : currentSpan.Parallel noPlace currentSpan r r' :=
  .get fun _ => .pure rfl

theorem attributeArguments_parallel (r r' : Reader) :
    attributeArguments.Parallel (List.map Expr.unplaced) attributeArguments r r' := by
  refine (Parallel.accept _ r r').bind fun b b' r₁ r₁' hb => ?_
  obtain rfl : b = b' := hb
  refine .ite (fun _ => ?_) fun _ => .pure rfl
  refine (arguments_parallel expression_parallel r₁ r₁').bind fun args args' r₂ r₂' hargs => ?_
  exact (Parallel.expect _ _ r₂ r₂').bind fun _ _ _ _ _ => .pure hargs

theorem oneAttribute_parallel (r r' : Reader) :
    oneAttribute.Parallel (Option.map Attribute.unplaced) oneAttribute r r' := by
  refine (currentSpan_parallel r r').bind fun _ _ r₁ r₁' _ => ?_
  refine (Parallel.accept _ r₁ r₁').bind fun b b' r₂ r₂' hb => ?_
  obtain rfl : b = b' := hb
  refine .ite (fun _ => ?_) fun _ => .pure rfl
  refine (Parallel.name _ r₂ r₂').bind fun n n' r₃ r₃' hn => ?_
  refine (attributeArguments_parallel r₃ r₃').bind fun args args' r₄ r₄' hargs => ?_
  refine (spanFrom_parallel _ _ r₄ r₄').bind fun _ _ _ _ _ => .pure ?_
  obtain rfl : n = n' := hn
  rw [Option.map_some, Option.map_some, Attribute.unplaced_mk, Attribute.unplaced_mk, hargs]

theorem attributes_parallel (r r' : Reader) :
    attributes.Parallel (List.map Attribute.unplaced) attributes r r' :=
  .many oneAttribute_parallel r r'

/-- A repetition of which only the number of rounds matters. -/
theorem count_parallel {α : Type} {item : Parse (Option α)} {f : α → Unit}
    (h : ∀ r r', item.Parallel (Option.map f) item r r') (r r' : Reader) :
    Parallel id (do return (← many item).length) (do return (← many item).length) r r' := by
  refine (Parallel.many h r r').bind fun as as' _ _ has => .pure ?_
  have hlength := congrArg List.length has
  rwa [List.length_map, List.length_map] at hlength

theorem optional_parallel (s : Symbol) (r r' : Reader) :
    (optional s).Parallel (Option.map id) (optional s) r r' := by
  refine (Parallel.accept s r r').bind fun b b' _ _ hb => ?_
  obtain rfl : b = b' := hb
  exact .ite (fun _ => .pure rfl) fun _ => .pure rfl

theorem stars_parallel (r r' : Reader) : stars.Parallel id stars r r' :=
  count_parallel (optional_parallel .star) r r'

theorem longItem_parallel (r r' : Reader) :
    longItem.Parallel (Option.map id) longItem r r' := by
  refine (Parallel.acceptKind _ r r').bind fun b b' r₁ r₁' hb => ?_
  obtain rfl : b = b' := hb
  refine .ite (fun _ => .pure rfl) fun _ => ?_
  refine (Parallel.acceptKind _ r₁ r₁').bind fun b b' _ _ hb => ?_
  obtain rfl : b = b' := hb
  exact .ite (fun _ => .pure rfl) fun _ => .pure rfl

theorem longRest_parallel (r r' : Reader) : longRest.Parallel id longRest r r' :=
  (Parallel.many longItem_parallel r r').bind fun _ _ _ _ _ => .pure rfl

theorem typeName_parallel (r r' : Reader) : typeName.Parallel id typeName r r' := by
  refine .get fun hr => ?_
  rw [hr.kind_eq]
  split
  · next base _ =>
    have hstars (r r' : Reader) : Parallel id (do return (⟨base, ← stars⟩ : VarType))
        (do return (⟨base, ← stars⟩ : VarType)) r r' :=
      (stars_parallel r r').bind fun n n' _ _ hn => .pure (congrArg (VarType.mk base) hn)
    refine (Parallel.advance r r').bind fun _ _ r₁ r₁' _ => ?_
    dsimp only
    refine .ite (fun _ => ?_) fun _ => hstars r₁ r₁'
    exact (longRest_parallel r₁ r₁').bind fun _ _ r₂ r₂' _ => hstars r₂ r₂'
  · exact .fail _

theorem parameterBracket_parallel (r r' : Reader) :
    parameterBracket.Parallel (Option.map id) parameterBracket r r' := by
  refine (Parallel.accept _ r r').bind fun b b' r₁ r₁' hb => ?_
  obtain rfl : b = b' := hb
  refine .ite (fun _ => .get fun hr => ?_) fun _ => .pure rfl
  have hclose (r r' : Reader) : Parallel (Option.map id) (do expect .rightBracket; return some ())
      (do expect .rightBracket; return some ()) r r' :=
    (Parallel.expect _ _ r r').bind fun _ _ _ _ _ => .pure rfl
  rw [hr.seesSymbol_eq]
  dsimp only
  refine .ite (fun _ => ?_) fun _ => hclose r₁ r₁'
  exact (expression_parallel r₁ r₁').bind fun _ _ r₂ r₂' _ => hclose r₂ r₂'

theorem parameterBrackets_parallel (r r' : Reader) :
    parameterBrackets.Parallel id parameterBrackets r r' :=
  count_parallel parameterBracket_parallel r r'

theorem parameter_parallel (type : VarType) (r r' : Reader) :
    (parameter type).Parallel id (parameter type) r r' := by
  refine (stars_parallel r r').bind fun depth depth' r₁ r₁' hdepth => ?_
  refine (currentSpan_parallel r₁ r₁').bind fun _ _ r₂ r₂' _ => ?_
  refine (Parallel.name _ r₂ r₂').bind fun n n' r₃ r₃' hn => ?_
  refine (parameterBrackets_parallel r₃ r₃').bind fun more more' r₄ r₄' hmore => ?_
  obtain rfl : depth = depth' := hdepth
  obtain rfl : n = n' := hn
  obtain rfl : more = more' := hmore
  exact .declare _ _ _ _ r₄ r₄'

theorem parameterItem_parallel (r r' : Reader) :
    parameterItem.Parallel (Option.map id) parameterItem r r' := by
  refine (Parallel.accept _ r r').bind fun b b' r₁ r₁' hb => ?_
  obtain rfl : b = b' := hb
  refine .ite (fun _ => ?_) fun _ => .pure rfl
  refine (typeName_parallel r₁ r₁').bind fun type type' r₂ r₂' htype => ?_
  obtain rfl : type = type' := htype
  exact (parameter_parallel type r₂ r₂').bind fun v v' _ _ hv => .pure (congrArg some hv)

theorem parameters_parallel (r r' : Reader) :
    parameters.Parallel (List.map id) parameters r r' := by
  refine .get fun hr => ?_
  rw [hr.seesSymbol_eq, hr.seesKeyword_eq]
  refine .ite (fun _ => .pure rfl) fun _ => ?_
  refine (typeName_parallel r r').bind fun type type' r₁ r₁' htype => .get fun hr₁ => ?_
  obtain rfl : type = type' := htype
  rw [hr₁.seesSymbol_eq]
  refine .ite (fun _ => .pure rfl) fun _ => ?_
  refine (parameter_parallel type r₁ r₁').bind fun v v' r₂ r₂' hv => ?_
  refine (Parallel.many parameterItem_parallel r₂ r₂').bind fun vs vs' _ _ hvs => .pure ?_
  rw [List.map_cons, List.map_cons, hv, hvs]

theorem arrayBracket_parallel (r r' : Reader) :
    arrayBracket.Parallel (Option.map id) arrayBracket r r' := by
  refine (Parallel.accept _ r r').bind fun b b' r₁ r₁' hb => ?_
  obtain rfl : b = b' := hb
  refine .ite (fun _ => ?_) fun _ => .pure rfl
  refine (expression_parallel r₁ r₁').bind fun _ _ r₂ r₂' _ => ?_
  exact (Parallel.expect _ _ r₂ r₂').bind fun _ _ _ _ _ => .pure rfl

theorem arrayBrackets_parallel (r r' : Reader) : arrayBrackets.Parallel id arrayBrackets r r' :=
  count_parallel arrayBracket_parallel r r'

theorem initializer_parallel (r r' : Reader) :
    initializer.Parallel (Option.map Expr.unplaced) initializer r r' := by
  refine (Parallel.accept _ r r').bind fun b b' r₁ r₁' hb => ?_
  obtain rfl : b = b' := hb
  refine .ite (fun _ => ?_) fun _ => .pure rfl
  exact (expression_parallel r₁ r₁').bind fun x x' _ _ hx => .pure (congrArg some hx)

theorem declarator_parallel (type : VarType) (r r' : Reader) :
    (declarator type).Parallel Declarator.unplaced (declarator type) r r' := by
  refine (currentSpan_parallel r r').bind fun _ _ r₁ r₁' _ => ?_
  refine (stars_parallel r₁ r₁').bind fun depth depth' r₂ r₂' hdepth => ?_
  refine (currentSpan_parallel r₂ r₂').bind fun _ _ r₃ r₃' _ => ?_
  refine (Parallel.name _ r₃ r₃').bind fun n n' r₄ r₄' hn => ?_
  refine (arrayBrackets_parallel r₄ r₄').bind fun more more' r₅ r₅' hmore => ?_
  refine (initializer_parallel r₅ r₅').bind fun x x' r₆ r₆' hx => ?_
  obtain rfl : depth = depth' := hdepth
  obtain rfl : n = n' := hn
  obtain rfl : more = more' := hmore
  refine (Parallel.declare _ _ _ _ r₆ r₆').bind fun v v' r₇ r₇' hv => ?_
  refine (spanFrom_parallel _ _ r₇ r₇').bind fun _ _ _ _ _ => .pure ?_
  obtain rfl : v = v' := hv
  rw [Declarator.unplaced_mk, Declarator.unplaced_mk, hx]

theorem declaration_parallel (r r' : Reader) :
    declaration.Parallel (List.map Declarator.unplaced) declaration r r' := by
  refine (typeName_parallel r r').bind fun type type' r₁ r₁' htype => ?_
  obtain rfl : type = type' := htype
  refine (Parallel.commaSeparated (declarator_parallel type) r₁ r₁').bind
    fun ds ds' r₂ r₂' hds => ?_
  exact (Parallel.expect _ _ r₂ r₂').bind fun _ _ _ _ _ => .pure hds

/-! ## Where reading goes on -/

theorem endsStatement_eq (r r' : Reader) (h : r.Parallel r') :
    endsStatement r = endsStatement r' := by
  unfold endsStatement
  rw [h.seesSymbol_eq, h.previous, h.kind_eq]

theorem startsFunction_eq (r r' : Reader) (h : r.Parallel r') :
    startsFunction r = startsFunction r' := by
  unfold startsFunction
  rw [h.seesSymbol_eq, h.previous, h.kind_eq]

/-- Whether a statement failed at its first token is the same question in both texts. -/
theorem recoverStatement_parallel {r r' r₁ r₁' : Reader} (h : r.Parallel r')
    (hboth : Reader.BothOnward r r' r₁ r₁') :
    Reader.BothOnward r r' (recoverStatement r.current.span r₁)
      (recoverStatement r'.current.span r₁') := by
  have hspan : (r₁.current.span == r.current.span) = (r₁'.current.span == r'.current.span) := by
    rw [Bool.eq_iff_iff, beq_iff_eq, beq_iff_eq, h.left.span_eq_iff hboth.left,
      h.right.span_eq_iff hboth.right, h.length_eq, hboth.parallel.length_eq]
  have hskip (r r' : Reader) (h : r.Parallel r') := h.skipUntil endsStatement_eq
  unfold recoverStatement
  rw [hspan, hboth.parallel.atEnd_eq, hboth.parallel.seesSymbol_eq]
  dsimp only
  split
  · have hpast := hboth.parallel.skip
    exact (hboth.trans hpast).trans (hskip _ _ hpast.parallel)
  · exact hboth.trans (hskip _ _ hboth.parallel)

theorem recoverFunction_parallel {r r' r₁ r₁' : Reader} (hboth : Reader.BothOnward r r' r₁ r₁') :
    Reader.BothOnward r r' (recoverFunction r₁) (recoverFunction r₁') := by
  have hskip (r r' : Reader) (h : r.Parallel r') := h.skipUntil startsFunction_eq
  unfold recoverFunction
  rw [hboth.parallel.atEnd_eq]
  dsimp only
  split
  · exact hboth.trans (hskip _ _ hboth.parallel)
  · have hpast := hboth.parallel.skip
    exact (hboth.trans hpast).trans (hskip _ _ hpast.parallel)

/-! ## Statements -/

theorem initClause_parallel (r r' : Reader) :
    initClause.Parallel Stmt.unplaced initClause r r' := by
  refine (currentSpan_parallel r r').bind fun _ _ r₁ r₁' _ => ?_
  refine (Parallel.accept _ r₁ r₁').bind fun b b' r₂ r₂' hb => ?_
  obtain rfl : b = b' := hb
  refine .ite (fun _ => .pure rfl) fun _ => .get fun hr => ?_
  rw [hr.kind_eq]
  refine .ite (fun _ => ?_) fun _ => ?_
  · refine (declaration_parallel r₂ r₂').bind fun ds ds' r₃ r₃' hds => ?_
    refine (spanFrom_parallel _ _ r₃ r₃').bind fun _ _ _ _ _ => .pure ?_
    rw [Stmt.unplaced_declaration, Stmt.unplaced_declaration, hds]
    rfl
  · refine (expression_parallel r₂ r₂').bind fun x x' r₃ r₃' hx => ?_
    refine (Parallel.expect _ _ r₃ r₃').bind fun _ _ _ _ _ => .pure ?_
    rw [Stmt.unplaced_expression, Stmt.unplaced_expression, hx]
    rfl

theorem clause_parallel (stops : List Symbol) (r r' : Reader) :
    (clause stops).Parallel Stmt.unplaced (clause stops) r r' := by
  refine .get fun hr => ?_
  have hstops : stops.any r.seesSymbol = stops.any r'.seesSymbol :=
    congrArg stops.any (funext hr.seesSymbol_eq)
  rw [hstops]
  refine .ite (fun _ => .pure rfl) fun _ => ?_
  refine (expression_parallel r r').bind fun x x' _ _ hx => .pure ?_
  rw [Stmt.unplaced_expression, Stmt.unplaced_expression, hx]
  rfl

theorem headerAttributes_parallel (r r' : Reader) :
    headerAttributes.Parallel (List.map Attribute.unplaced) headerAttributes r r' := by
  refine (Parallel.accept _ r r').bind fun b b' r₁ r₁' hb => ?_
  obtain rfl : b = b' := hb
  exact .ite (fun _ => attributes_parallel r₁ r₁') fun _ => .pure rfl

theorem condition_parallel (place : Place) (r r' : Reader) :
    (condition place).Parallel Expr.unplaced (condition place) r r' := by
  refine (Parallel.advance r r').bind fun _ _ r₁ r₁' _ => ?_
  refine (Parallel.expect _ _ r₁ r₁').bind fun _ _ r₂ r₂' _ => ?_
  refine (expression_parallel r₂ r₂').bind fun x x' r₃ r₃' hx => ?_
  exact (Parallel.expect _ _ r₃ r₃').bind fun _ _ _ _ _ => .pure hx

theorem optionalValue_parallel (r r' : Reader) :
    optionalValue.Parallel (Option.map Expr.unplaced) optionalValue r r' := by
  refine .get fun hr => ?_
  rw [hr.seesSymbol_eq]
  refine .ite (fun _ => .pure rfl) fun _ => ?_
  exact (expression_parallel r r').bind fun x x' _ _ hx => .pure (congrArg some hx)

/-- Attributes and a loop without spans. -/
def unplacedLoop (l : List Attribute × Loop) : List Attribute × Loop :=
  (l.1.map Attribute.unplaced, l.2.unplaced)

section

variable {inner inner' : Parse Stmt} (h : ∀ r r', inner.Parallel Stmt.unplaced inner' r r')
  (r r' : Reader)
include h

theorem blockItem_parallel : (blockItem inner).Parallel (Option.map (Option.map Stmt.unplaced))
    (blockItem inner') r r' := by
  rw [blockItem_eq, blockItem_eq]
  refine .itemUnless (fun hr => ?_) fun hr =>
    .recovering (h r r') fun _ _ => recoverStatement_parallel hr
  rw [endsBlock, endsBlock, hr.seesSymbol_eq, hr.atEnd_eq]

theorem block_parallel : (block inner).Parallel Block.unplaced (block inner') r r' := by
  refine (currentSpan_parallel r r').bind fun _ _ r₁ r₁' _ => ?_
  refine (Parallel.expect _ _ r₁ r₁').bind fun _ _ r₂ r₂' _ => ?_
  refine (Parallel.inScope (Parallel.many (blockItem_parallel h)) r₂ r₂').bind
    fun found found' r₃ r₃' hfound => ?_
  refine (Parallel.expect _ _ r₃ r₃').bind fun _ _ r₄ r₄' _ => ?_
  refine (spanFrom_parallel _ _ r₄ r₄').bind fun _ _ _ _ _ => .pure ?_
  have hread (os : List (Option Stmt)) :
      (os.filterMap id).map Stmt.unplaced = (os.map (Option.map Stmt.unplaced)).filterMap id := by
    rw [List.map_filterMap, List.filterMap_map]
    rfl
  have hstatements : (found.filterMap id).map Stmt.unplaced =
      (found'.filterMap id).map Stmt.unplaced := by
    rw [hread, hread, hfound]
  exact congrArg (Block.mk · .none) hstatements

theorem forRest_parallel : (forRest inner).Parallel unplacedLoop (forRest inner') r r' := by
  refine (initClause_parallel r r').bind fun i i' r₁ r₁' hi => ?_
  refine (clause_parallel _ r₁ r₁').bind fun c c' r₂ r₂' hc => ?_
  refine (Parallel.expect _ _ r₂ r₂').bind fun _ _ r₃ r₃' _ => ?_
  refine (clause_parallel _ r₃ r₃').bind fun u u' r₄ r₄' hu => ?_
  refine (headerAttributes_parallel r₄ r₄').bind fun marks marks' r₅ r₅' hmarks => ?_
  refine (Parallel.expect _ _ r₅ r₅').bind fun _ _ r₆ r₆' _ => ?_
  refine (h r₆ r₆').bind fun b b' _ _ hb => .pure ?_
  have hloop : (⟨i, c, u, b⟩ : Loop).unplaced = (⟨i', c', u', b'⟩ : Loop).unplaced := by
    change Loop.mk i.unplaced c.unplaced u.unplaced b.unplaced = _
    rw [hi, hc, hu, hb]
    rfl
  rw [unplacedLoop, unplacedLoop, hmarks, hloop]

theorem forStatement_parallel {marks marks' : List Attribute}
    (hmarks : marks.map Attribute.unplaced = marks'.map Attribute.unplaced) :
    (forStatement inner marks).Parallel Stmt.unplaced (forStatement inner' marks') r r' := by
  refine (currentSpan_parallel r r').bind fun _ _ r₁ r₁' _ => ?_
  refine (Parallel.advance r₁ r₁').bind fun _ _ r₂ r₂' _ => ?_
  refine (Parallel.expect _ _ r₂ r₂').bind fun _ _ r₃ r₃' _ => ?_
  refine (Parallel.inScope (forRest_parallel h) r₃ r₃').bind fun l l' r₄ r₄' hl => ?_
  refine (spanFrom_parallel _ _ r₄ r₄').bind fun _ _ _ _ _ => .pure ?_
  obtain ⟨hmore, hloop⟩ := Prod.mk.inj hl
  obtain ⟨hi, hc, hu, hb⟩ := Loop.mk.inj hloop
  have hi : l.2.init.unplaced = l'.2.init.unplaced := hi
  have hc : l.2.check.unplaced = l'.2.check.unplaced := hc
  have hu : l.2.update.unplaced = l'.2.update.unplaced := hu
  have hb : l.2.body.unplaced = l'.2.body.unplaced := hb
  simp only [Stmt.unplaced_forLoop, StmtHead.unplaced_mk, List.map_append, hmarks, hmore, hi, hc,
    hu, hb]

theorem statementRest_parallel {marks marks' : List Attribute}
    (hmarks : marks.map Attribute.unplaced = marks'.map Attribute.unplaced) :
    (statementRest inner marks).Parallel Stmt.unplaced (statementRest inner' marks') r r' := by
  have hhead (f f' : StmtHead → Stmt) (start start' : Span) (r r' : Reader)
      (hf : ∀ head head', head.unplaced = head'.unplaced →
        (f head).unplaced = (f' head').unplaced) :
      Parallel Stmt.unplaced (do return f ⟨← spanFrom start, marks⟩)
        (do return f' ⟨← spanFrom start', marks'⟩) r r' := by
    refine (spanFrom_parallel _ _ r r').bind fun _ _ _ _ _ => .pure (hf _ _ ?_)
    rw [StmtHead.unplaced_mk, StmtHead.unplaced_mk, hmarks]
  refine (currentSpan_parallel r r').bind fun start start' r₁ r₁' _ => .get fun hr => ?_
  rw [hr.kind_eq]
  generalize r₁'.current.kind = kind
  split
  · exact forStatement_parallel h r₁ r₁' hmarks
  · refine (block_parallel h r₁ r₁').bind fun b b' r₂ r₂' hb => ?_
    have hstatements : b.statements.map Stmt.unplaced = b'.statements.map Stmt.unplaced :=
      congrArg Block.statements hb
    refine hhead (.block · b.statements) (.block · b'.statements) _ _ r₂ r₂' fun _ _ hheads => ?_
    rw [Stmt.unplaced_block, Stmt.unplaced_block, hheads, hstatements]
  · refine (condition_parallel _ r₁ r₁').bind fun c c' r₂ r₂' hc => ?_
    refine (h r₂ r₂').bind fun t t' r₃ r₃' ht => ?_
    refine (Parallel.acceptKind _ r₃ r₃').bind fun b b' r₄ r₄' hb => ?_
    obtain rfl : b = b' := hb
    refine .ite (fun _ => ?_) fun _ => ?_
    · refine (h r₄ r₄').bind fun e e' r₅ r₅' he => ?_
      refine hhead (.ifElse · c t e) (.ifElse · c' t' e') _ _ r₅ r₅' fun _ _ hheads => ?_
      rw [Stmt.unplaced_ifElse, Stmt.unplaced_ifElse, hheads, hc, ht, he]
    · refine hhead (.ifThen · c t) (.ifThen · c' t') _ _ r₄ r₄' fun _ _ hheads => ?_
      rw [Stmt.unplaced_ifThen, Stmt.unplaced_ifThen, hheads, hc, ht]
  · refine (condition_parallel _ r₁ r₁').bind fun c c' r₂ r₂' hc => ?_
    refine (h r₂ r₂').bind fun t t' r₃ r₃' ht => ?_
    refine hhead (.whileLoop · c t) (.whileLoop · c' t') _ _ r₃ r₃' fun _ _ hheads => ?_
    rw [Stmt.unplaced_whileLoop, Stmt.unplaced_whileLoop, hheads, hc, ht]
  · refine (Parallel.advance r₁ r₁').bind fun _ _ r₂ r₂' _ => ?_
    refine (optionalValue_parallel r₂ r₂').bind fun v v' r₃ r₃' hv => ?_
    refine (Parallel.expect _ _ r₃ r₃').bind fun _ _ r₄ r₄' _ => ?_
    refine hhead (.returns · v) (.returns · v') _ _ r₄ r₄' fun _ _ hheads => ?_
    rw [Stmt.unplaced_returns, Stmt.unplaced_returns, hheads, hv]
  · refine (Parallel.advance r₁ r₁').bind fun _ _ r₂ r₂' _ => ?_
    refine hhead .empty .empty _ _ r₂ r₂' fun _ _ hheads => ?_
    rw [Stmt.unplaced_empty, Stmt.unplaced_empty, hheads]
  · refine (declaration_parallel r₁ r₁').bind fun ds ds' r₂ r₂' hds => ?_
    refine hhead (.declaration · ds) (.declaration · ds') _ _ r₂ r₂' fun _ _ hheads => ?_
    rw [Stmt.unplaced_declaration, Stmt.unplaced_declaration, hheads, hds]
  · refine (expression_parallel r₁ r₁').bind fun x x' r₂ r₂' hx => ?_
    refine (Parallel.expect _ _ r₂ r₂').bind fun _ _ r₃ r₃' _ => ?_
    refine hhead (.expression · x) (.expression · x') _ _ r₃ r₃' fun _ _ hheads => ?_
    rw [Stmt.unplaced_expression, Stmt.unplaced_expression, hheads, hx]

end

theorem statement_parallel (r r' : Reader) : statement.Parallel Stmt.unplaced statement r r' := by
  have hrounds (rounds rounds' : List Item) (hlength : rounds.length = rounds'.length)
      (r r' : Reader) :
      (statementFor rounds).Parallel Stmt.unplaced (statementFor rounds') r r' := by
    induction rounds generalizing rounds' r r' with
    | nil =>
      obtain rfl := List.eq_nil_of_length_eq_zero hlength.symm
      exact .fail _
    | cons _ rounds ih =>
      obtain ⟨_, rounds', rfl⟩ := List.exists_cons_of_length_eq_add_one hlength.symm
      refine (attributes_parallel r r').bind fun marks marks' r₁ r₁' hmarks => ?_
      exact statementRest_parallel (ih rounds' (Nat.succ.inj hlength)) r₁ r₁' hmarks
  exact .get fun hr => hrounds _ _ hr.length_eq r r'

/-! ## Functions -/

/-- Parameters and a body without spans. -/
def unplacedRest (p : List VarRef × Block) : List VarRef × Block := (p.1, p.2.unplaced)

theorem functionRest_parallel (r r' : Reader) :
    functionRest.Parallel unplacedRest functionRest r r' := by
  refine (Parallel.expect _ _ r r').bind fun _ _ r₁ r₁' _ => ?_
  refine (parameters_parallel r₁ r₁').bind fun params params' r₂ r₂' hparams => ?_
  refine (Parallel.expect _ _ r₂ r₂').bind fun _ _ r₃ r₃' _ => ?_
  refine (block_parallel statement_parallel r₃ r₃').bind fun b b' _ _ hb => .pure ?_
  rw [List.map_id, List.map_id] at hparams
  rw [unplacedRest, unplacedRest, hparams, hb]

theorem function_parallel (r r' : Reader) :
    function.Parallel Function.unplaced function r r' := by
  refine (attributes_parallel r r').bind fun marks marks' r₁ r₁' hmarks => ?_
  refine (currentSpan_parallel r₁ r₁').bind fun _ _ r₂ r₂' _ => ?_
  refine (typeName_parallel r₂ r₂').bind fun type type' r₃ r₃' htype => ?_
  refine (Parallel.name _ r₃ r₃').bind fun n n' r₄ r₄' hn => ?_
  refine (Parallel.inScope functionRest_parallel r₄ r₄').bind fun p p' r₅ r₅' hp => ?_
  refine (spanFrom_parallel _ _ r₅ r₅').bind fun _ _ _ _ _ => .pure ?_
  obtain rfl : type = type' := htype
  obtain rfl : n = n' := hn
  obtain ⟨hparams, hbody⟩ := Prod.mk.inj hp
  rw [Function.unplaced_mk, Function.unplaced_mk, hparams, hbody, hmarks]

theorem programItem_parallel (r r' : Reader) :
    programItem.Parallel (Option.map (Option.map Function.unplaced)) programItem r r' := by
  rw [programItem_eq]
  exact .itemUnless (fun hr => hr.atEnd_eq) fun _ =>
    .recovering (function_parallel r r') fun _ _ => recoverFunction_parallel

theorem functions_parallel (r r' : Reader) :
    functions.Parallel (List.map Function.unplaced) functions r r' := by
  refine (Parallel.many programItem_parallel r r').bind fun found found' _ _ hfound => .pure ?_
  have hread (os : List (Option Function)) :
      (os.filterMap id).map Function.unplaced =
        (os.map (Option.map Function.unplaced)).filterMap id := by
    rw [List.map_filterMap, List.filterMap_map]
    rfl
  rw [hread, hread, hfound]

end Grammar

/-! ## Programs -/

/-- The readers at the first tokens of two texts with the same words are parallel. -/
theorem Reader.parallel_of_tokenize {source source' : String} {ts ts' : List Token}
    (h : tokenize source = .ok ts) (h' : tokenize source' = .ok ts')
    (hwords : ts.map Token.word = ts'.map Token.word) :
    ∃ r r', Reader.ofSource source = .ok r ∧ Reader.ofSource source' = .ok r' ∧ r.Parallel r' := by
  have hscan := scan_of_tokenize h
  have hscan' := scan_of_tokenize h'
  cases ts with
  | nil =>
    obtain ⟨items, t, hclosed, -⟩ := scan_closed source
    rw [hscan] at hclosed
    simp at hclosed
  | cons t ts =>
    cases ts' with
    | nil => cases hwords
    | cons t' ts' =>
      obtain ⟨hword, -⟩ := List.cons.inj hwords
      let r : Reader := { items := ts.map .token, current := t, previous := t }
      let r' : Reader := { items := ts'.map .token, current := t', previous := t' }
      have hr : Reader.ofSource source = .ok r := by
        rw [Reader.ofSource, hscan]
        rfl
      have hr' : Reader.ofSource source' = .ok r' := by
        rw [Reader.ofSource, hscan']
        rfl
      have hstrict := scan_strict source
      have hstrict' := scan_strict source'
      rw [hscan] at hstrict
      rw [hscan'] at hstrict'
      refine ⟨r, r', hr, hr', ?_⟩
      have hclosed := (sound_of_ofSource hr).1.closed
      have hclosed' := (sound_of_ofSource hr').1.closed
      exact ⟨⟨hclosed, hstrict⟩, ⟨hclosed', hstrict'⟩,
        ⟨_, ⟨t :: ts, rfl, rfl⟩, ⟨t' :: ts', rfl, hwords.symm⟩⟩, congrArg Word.kind hword, rfl, rfl,
        rfl⟩

/-- What is read from two texts is the same without places: the program, or all problems. -/
inductive ReadError.SameRead : Except ReadError Program → Except ReadError Program → Prop
  | program {p p' : Program} (h : p.unplaced = p'.unplaced) : SameRead (.ok p) (.ok p')
  | problems {ps ps' : List Problem} (h : ps.map Problem.unplaced = ps'.map Problem.unplaced) :
      SameRead (.error (.problems ps)) (.error (.problems ps'))

/-- Texts with the same words are the same program, or they have the same problems. -/
theorem Program.read_parallel {source source' : String} {ts ts' : List Token}
    (h : tokenize source = .ok ts) (h' : tokenize source' = .ok ts')
    (hwords : ts.map Token.word = ts'.map Token.word) :
    ReadError.SameRead (Program.read source) (Program.read source') := by
  obtain ⟨r, r', hr, hr', hparallel⟩ := Reader.parallel_of_tokenize h h' hwords
  obtain ⟨hboth, houtcomes⟩ := Grammar.functions_parallel r r' hparallel
  have hafter := hboth.parallel
  unfold Program.read
  rw [hr, hr']
  rcases hrun : Grammar.functions r with ⟨result, r₁⟩
  rcases hrun' : Grammar.functions r' with ⟨result', r₁'⟩
  rw [hrun, hrun'] at houtcomes hafter
  dsimp only
  rw [hrun, hrun']
  cases houtcomes with
  | error hp =>
    refine .problems ?_
    simp only [Failure.problemAt, List.map_append, List.map_cons, List.map_nil, hafter.problems, hp]
  | ok hfs =>
    dsimp only
    have hempty : r₁.problems.isEmpty = r₁'.problems.isEmpty := by
      have hsame := congrArg List.isEmpty hafter.problems
      rwa [List.isEmpty_map, List.isEmpty_map] at hsame
    rw [hempty]
    split
    · refine .program ?_
      rw [Program.unplaced, Program.unplaced, hfs, hafter.vars]
    · exact .problems hafter.problems

end LoopNest
