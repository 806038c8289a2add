import LoopNest.Proofs.Grammar.Handling

/-!
# What all readers of the grammar have in common

The readers of the grammar are put together from a few smallest steps in a few ways. A property that
these steps have, and that is not lost where steps are put together, is one of the whole grammar.

* `Parse.Closed`: a property of steps of that kind. `Parse.Closed.and`: two of them make one.
* `Grammar.Handling.Closed`: the two readers that handle errors have it too.
* `Grammar.Handling.Admits`: the readers that are made of these have it, but a declaration may have
  it only where it stands in the grammar.
* `Grammar.expression_closed`, `Grammar.Handling.functions_closed`: so has the grammar, one lemma
  for each of its readers.
-/

namespace LoopNest

/-- Whether the problem is that a name is declared again. -/
def Problem.Cause.isRedefinition : Problem.Cause → Bool
  | redefinition _ => true
  | _ => false

def Problem.isRedefinition (p : Problem) : Bool := p.cause.isRedefinition

namespace Parse

/-- The smallest steps have the property, and so have steps that are put together from others which
have it. A step that fails on its own account never fails because of a redefinition. -/
structure Closed (P : (α : Type) → Parse α → Prop) : Prop where
  pure : ∀ {α : Type} (a : α), P α (Pure.pure a)
  fail : ∀ {α : Type} (cause : Problem.Cause), cause.isRedefinition = false → P α (Parse.fail cause)
  bind : ∀ {α β : Type} {step : Parse α} {next : α → Parse β},
    P α step → (∀ a, P β (next a)) → P β (step >>= next)
  get : ∀ {α : Type} {next : Reader → Parse α}, (∀ r, P α (next r)) →
    P α (MonadStateOf.get >>= next)
  advance : P Unit Parse.advance
  resolve : ∀ name span, P VarRef (Parse.resolve name span)
  inScope : ∀ {α : Type} {step : Parse α}, P α step → P α (Parse.inScope step)

namespace Closed

variable {α : Type} {P : (α : Type) → Parse α → Prop} (hP : Closed P)
include hP

theorem acceptKind (k : Token.Kind) : P _ (Parse.acceptKind k) := by
  apply hP.get
  intro r
  split
  · exact hP.bind hP.advance fun _ => hP.pure true
  · exact hP.pure false

theorem accept (s : Symbol) : P _ (Parse.accept s) := hP.acceptKind (.symbol s)

theorem expect (s : Symbol) (place : Place) : P _ (Parse.expect s place) := by
  apply hP.get
  intro r
  split
  · exact hP.advance
  · exact hP.fail _ rfl

theorem name (named : Named) : P _ (Parse.name named) := by
  apply hP.get
  intro r
  split
  · exact hP.bind hP.advance fun _ => hP.pure _
  · exact hP.fail _ rfl

theorem many {step : Parse (Option α)} (h : P _ step) : P _ (Parse.many step) := by
  have hrounds (rounds : List Item) : P _ (Parse.manyFor step rounds) := by
    induction rounds with
    | nil => exact hP.pure []
    | cons _ rounds ih =>
      apply hP.bind h
      intro o
      cases o with
      | none => exact hP.pure []
      | some a => exact hP.bind ih fun as => hP.pure (a :: as)
  exact hP.get fun r => hrounds r.remaining

/-- Either a symbol is taken and a step follows, or nothing is done. -/
theorem behindSymbol (s : Symbol) {step : Parse α} (h : P _ step) (otherwise : α) :
    P _ (do if ← Parse.accept s then step else Pure.pure otherwise) := by
  apply hP.bind (hP.accept s)
  intro accepted
  cases accepted with
  | false => exact hP.pure otherwise
  | true => exact h

theorem commaSeparated {item : Parse α} (h : P _ item) : P _ (Parse.commaSeparated item) := by
  have hnext : P _ (do let a ← item; return some a : Parse (Option α)) :=
    hP.bind h fun a => hP.pure (some a)
  apply hP.bind h
  intro first
  exact hP.bind (hP.many (hP.behindSymbol .comma hnext none)) fun rest => hP.pure (first :: rest)

theorem itemUnless {stop : Reader → Bool} {item : Reader → Parse α} (h : ∀ r, P _ (item r)) :
    P _ (Parse.itemUnless stop item) := by
  apply hP.get
  intro r
  split
  · exact hP.pure none
  · exact hP.bind (h r) fun a => hP.pure (some a)

omit hP in
/-- Two properties of that kind make one. -/
theorem and {P Q : (α : Type) → Parse α → Prop} (hP : Closed P) (hQ : Closed Q) :
    Closed fun α step => P α step ∧ Q α step where
  pure a := ⟨hP.pure a, hQ.pure a⟩
  fail cause h := ⟨hP.fail cause h, hQ.fail cause h⟩
  bind h hnext := ⟨hP.bind h.1 fun a => (hnext a).1, hQ.bind h.2 fun a => (hnext a).2⟩
  get h := ⟨hP.get fun r => (h r).1, hQ.get fun r => (h r).2⟩
  advance := ⟨hP.advance, hQ.advance⟩
  resolve name span := ⟨hP.resolve name span, hQ.resolve name span⟩
  inScope h := ⟨hP.inScope h.1, hQ.inScope h.2⟩

end Closed

end Parse

namespace Grammar

open Parse

variable {P : (α : Type) → Parse α → Prop} (hP : Parse.Closed P)
include hP

/-! ## Expressions -/

theorem literal_closed (value : Option Literal) {otherwise : Problem.Cause}
    (hcause : otherwise.isRedefinition = false) (span : Span) :
    P _ (literal value otherwise span) := by
  cases value with
  | none => exact hP.fail otherwise hcause
  | some v => exact hP.bind hP.advance fun _ => hP.pure _

section

variable {inner : Parse Expr} (h : P _ inner)
include h

theorem arguments_closed : P _ (arguments inner) := by
  apply hP.get
  intro r
  split
  · exact hP.pure []
  · exact hP.commaSeparated h

theorem named_closed (name : String) (start : Span) : P _ (named inner name start) := by
  apply hP.bind (hP.accept _)
  intro accepted
  cases accepted with
  | true =>
    apply hP.bind (arguments_closed hP h)
    intro args
    exact hP.bind (hP.expect _ _) fun _ => hP.get fun r => hP.pure _
  | false => exact hP.bind (hP.resolve name start) fun v => hP.pure _

theorem primary_closed : P _ (primary inner) := by
  apply hP.get
  intro r
  dsimp only
  split
  · exact literal_closed hP _ rfl _
  · exact literal_closed hP _ rfl _
  · exact literal_closed hP _ rfl _
  · exact hP.bind hP.advance fun _ => named_closed hP h _ _
  · apply hP.bind hP.advance
    intro _
    apply hP.bind h
    intro x
    exact hP.bind (hP.expect _ _) fun _ => hP.get fun r => hP.pure _
  · exact hP.fail _ rfl

theorem suffix_closed : P _ (suffix inner) := by
  apply hP.get
  intro r
  dsimp only
  split
  · exact hP.bind hP.advance fun _ => hP.get fun r => hP.pure _
  · apply hP.behindSymbol .leftBracket
    apply hP.bind h
    intro index
    exact hP.bind (hP.expect _ _) fun _ => hP.get fun r => hP.pure _

theorem unary_closed : P _ (unary inner) := by
  have hoperator : P _ operatorBefore := by
    apply hP.get
    intro r
    dsimp only
    split
    · exact hP.bind hP.advance fun _ => hP.pure _
    · exact hP.pure none
  have hsuffixed : P _ (suffixed inner) := by
    apply hP.bind (primary_closed hP h)
    intro x
    exact hP.bind (hP.many (suffix_closed hP h)) fun ss => hP.pure _
  apply hP.bind (hP.many hoperator)
  intro ops
  exact hP.bind hsuffixed fun x => hP.pure _

theorem operatorAndOperand_closed (precedence : Nat) :
    P _ (operatorAndOperand precedence inner) := by
  apply hP.get
  intro r
  split
  · exact hP.bind hP.advance fun _ => hP.bind h fun x => hP.pure _
  · exact hP.pure none

theorem operands_closed (n : Nat) : P _ (operands inner n) := by
  induction n with
  | zero => exact unary_closed hP h
  | succ n ih =>
    apply hP.bind ih
    intro first
    exact hP.bind (hP.many (operatorAndOperand_closed hP ih _)) fun rest => hP.pure _

theorem assignment_closed : P _ (assignment inner) := by
  have hoperands := operands_closed hP h 6
  apply hP.bind hoperands
  intro first
  exact hP.bind (hP.many (operatorAndOperand_closed hP hoperands 1)) fun rest => hP.pure _

end

theorem expression_closed : P _ expression := by
  have hrounds (rounds : List Item) : P _ (expressionFor rounds) := by
    induction rounds with
    | nil => exact hP.fail _ rfl
    | cons _ rounds ih => exact assignment_closed hP ih
  exact hP.get fun r => hrounds r.remaining

/-! ## Attributes and types -/

theorem spanFrom_closed (start : Span) : P _ (spanFrom start) := hP.get fun _ => hP.pure _

theorem currentSpan_closed : P _ currentSpan := hP.get fun _ => hP.pure _

theorem oneAttribute_closed : P _ oneAttribute := by
  have harguments : P _ attributeArguments := by
    apply hP.behindSymbol .leftParen
    apply hP.bind (arguments_closed hP (expression_closed hP))
    intro args
    exact hP.bind (hP.expect _ _) fun _ => hP.pure args
  apply hP.bind (currentSpan_closed hP)
  intro start
  apply hP.behindSymbol .atSign
  apply hP.bind (hP.name _)
  intro name
  apply hP.bind harguments
  intro args
  exact hP.bind (spanFrom_closed hP start) fun span => hP.pure _

theorem attributes_closed : P _ attributes := hP.many (oneAttribute_closed hP)

theorem stars_closed : P _ stars := by
  have hstar := hP.behindSymbol .star (hP.pure (some ())) none
  exact hP.bind (hP.many hstar) fun found => hP.pure _

theorem longItem_closed : P _ longItem := by
  apply hP.bind (hP.acceptKind _)
  intro accepted
  cases accepted with
  | true => exact hP.pure _
  | false =>
    apply hP.bind (hP.acceptKind _)
    intro accepted
    cases accepted with
    | true => exact hP.pure _
    | false => exact hP.pure _

theorem typeName_closed : P _ typeName := by
  have hrest : P _ longRest := hP.bind (hP.many (longItem_closed hP)) fun _ => hP.pure ()
  apply hP.get
  intro r
  dsimp only
  split
  · apply hP.bind hP.advance
    intro _
    have hstars (base : BaseType) : P _ (do return ⟨base, ← stars⟩ : Parse VarType) :=
      hP.bind (stars_closed hP) fun n => hP.pure _
    split
    · exact hP.bind hrest fun _ => hstars _
    · exact hstars _
  · exact hP.fail _ rfl

theorem parameterBracket_closed : P _ parameterBracket := by
  have hclose : P _ (do expect .rightBracket; return some () : Parse (Option Unit)) :=
    hP.bind (hP.expect _ _) fun _ => hP.pure _
  apply hP.behindSymbol .leftBracket
  apply hP.get
  intro r
  split
  · exact hP.bind (expression_closed hP) fun _ => hclose
  · exact hclose

theorem parameterBrackets_closed : P _ parameterBrackets :=
  hP.bind (hP.many (parameterBracket_closed hP)) fun _ => hP.pure _

theorem arrayBracket_closed : P _ arrayBracket := by
  apply hP.behindSymbol .leftBracket
  apply hP.bind (expression_closed hP)
  intro _
  exact hP.bind (hP.expect _ _) fun _ => hP.pure _

theorem arrayBrackets_closed : P _ arrayBrackets :=
  hP.bind (hP.many (arrayBracket_closed hP)) fun _ => hP.pure _

theorem initializer_closed : P _ initializer :=
  hP.behindSymbol .equal (hP.bind (expression_closed hP) fun x => hP.pure (some x)) none

/-! ## Parts of statements -/

theorem clause_closed (stops : List Symbol) : P _ (clause stops) := by
  apply hP.get
  intro r
  split
  · exact hP.pure _
  · exact hP.bind (expression_closed hP) fun x => hP.pure _

theorem headerAttributes_closed : P _ headerAttributes :=
  hP.behindSymbol .semicolon (attributes_closed hP) []

theorem condition_closed (place : Place) : P _ (condition place) := by
  apply hP.bind hP.advance
  intro _
  apply hP.bind (hP.expect _ _)
  intro _
  apply hP.bind (expression_closed hP)
  intro x
  exact hP.bind (hP.expect _ _) fun _ => hP.pure x

theorem optionalValue_closed : P _ optionalValue := by
  apply hP.get
  intro r
  split
  · exact hP.pure none
  · exact hP.bind (expression_closed hP) fun x => hP.pure (some x)

/-- The end of a statement, where its head is put to it. -/
theorem headed_closed (start : Span) (marks : List Attribute) (f : StmtHead → Stmt) :
    P _ (do
      let head ← (do return ⟨← spanFrom start, marks⟩ : Parse StmtHead)
      return f head : Parse Stmt) := by
  have hhead : P _ (do return ⟨← spanFrom start, marks⟩ : Parse StmtHead) :=
    hP.bind (spanFrom_closed hP start) fun span => hP.pure _
  exact hP.bind hhead fun head => hP.pure (f head)

/-! ## Readers that handle errors -/

namespace Handling

omit hP in
/-- Declarations have the property, and so has a step that is recovered from if it has it. -/
structure Closed (h : Handling) (P : (α : Type) → Parse α → Prop) : Prop where
  declare : ∀ name type span, P VarRef (h.declare name type span)
  statement : ∀ {step : Parse Stmt} (start : Span),
    P _ step → P _ (h.recovering step (recoverStatement start))
  function : ∀ {step : Parse Function}, P _ step → P _ (h.recovering step recoverFunction)

omit hP in
/-- Parameters and declarators have the property, and so has a step that is recovered from if it has
it. -/
structure Admits (h : Handling) (P : (α : Type) → Parse α → Prop) : Prop where
  parameter : ∀ type, P VarRef (h.parameter type)
  declarator : ∀ type, P Declarator (h.declarator type)
  statement : ∀ {step : Parse Stmt} (start : Span),
    P _ step → P _ (h.recovering step (recoverStatement start))
  function : ∀ {step : Parse Function}, P _ step → P _ (h.recovering step recoverFunction)

variable {h : Handling}

section

variable (hh : h.Closed P)
include hh

theorem parameter_closed (type : VarType) : P _ (h.parameter type) := by
  apply hP.bind (stars_closed hP)
  intro depth
  apply hP.bind (currentSpan_closed hP)
  intro span
  apply hP.bind (hP.name _)
  intro name
  exact hP.bind (parameterBrackets_closed hP) fun n => hh.declare _ _ _

theorem declarator_closed (type : VarType) : P _ (h.declarator type) := by
  apply hP.bind (currentSpan_closed hP)
  intro start
  apply hP.bind (stars_closed hP)
  intro depth
  apply hP.bind (currentSpan_closed hP)
  intro nameSpan
  apply hP.bind (hP.name _)
  intro name
  apply hP.bind (arrayBrackets_closed hP)
  intro n
  apply hP.bind (initializer_closed hP)
  intro x
  apply hP.bind (hh.declare _ _ _)
  intro v
  exact hP.bind (spanFrom_closed hP start) fun span => hP.pure _

theorem Closed.admits : h.Admits P where
  parameter := parameter_closed hP hh
  declarator := declarator_closed hP hh
  statement := hh.statement
  function := hh.function

end

variable (hh : h.Admits P)
include hh

theorem parameterItem_closed : P _ h.parameterItem := by
  apply hP.behindSymbol .comma
  apply hP.bind (typeName_closed hP)
  intro type
  exact hP.bind (hh.parameter type) fun v => hP.pure (some v)

theorem parameters_closed : P _ h.parameters := by
  apply hP.get
  intro r
  split
  · exact hP.pure []
  · apply hP.bind (typeName_closed hP)
    intro type
    apply hP.get
    intro r'
    split
    · exact hP.pure []
    · apply hP.bind (hh.parameter type)
      intro first
      exact hP.bind (hP.many (parameterItem_closed hP hh)) fun rest => hP.pure (first :: rest)

theorem declaration_closed : P _ h.declaration := by
  apply hP.bind (typeName_closed hP)
  intro type
  apply hP.bind (hP.commaSeparated (hh.declarator type))
  intro ds
  exact hP.bind (hP.expect _ _) fun _ => hP.pure ds

theorem initClause_closed : P _ h.initClause := by
  apply hP.bind (currentSpan_closed hP)
  intro start
  apply hP.bind (hP.accept _)
  intro accepted
  cases accepted with
  | true => exact hP.pure _
  | false =>
    apply hP.get
    intro r
    split
    · apply hP.bind (declaration_closed hP hh)
      intro ds
      exact hP.bind (spanFrom_closed hP start) fun span => hP.pure _
    · apply hP.bind (expression_closed hP)
      intro x
      exact hP.bind (hP.expect _ _) fun _ => hP.pure _

section

variable {statement : Parse Stmt} (hs : P _ statement)
include hs

theorem blockItem_closed : P _ (h.blockItem statement) :=
  hP.itemUnless fun _ => hh.statement _ hs

theorem block_closed : P _ (h.block statement) := by
  apply hP.bind (currentSpan_closed hP)
  intro start
  apply hP.bind (hP.expect _ _)
  intro _
  apply hP.bind (hP.inScope (hP.many (blockItem_closed hP hh hs)))
  intro items
  apply hP.bind (hP.expect _ _)
  intro _
  exact hP.bind (spanFrom_closed hP start) fun span => hP.pure _

theorem forRest_closed : P _ (h.forRest statement) := by
  apply hP.bind (initClause_closed hP hh)
  intro init
  apply hP.bind (clause_closed hP _)
  intro check
  apply hP.bind (hP.expect _ _)
  intro _
  apply hP.bind (clause_closed hP _)
  intro update
  apply hP.bind (headerAttributes_closed hP)
  intro marks
  apply hP.bind (hP.expect _ _)
  intro _
  exact hP.bind hs fun body => hP.pure _

theorem forStatement_closed (marks : List Attribute) : P _ (h.forStatement statement marks) := by
  apply hP.bind (currentSpan_closed hP)
  intro start
  apply hP.bind hP.advance
  intro _
  apply hP.bind (hP.expect _ _)
  intro _
  apply hP.bind (hP.inScope (forRest_closed hP hh hs))
  intro p
  exact hP.bind (spanFrom_closed hP start) fun span => hP.pure _

theorem statementRest_closed (marks : List Attribute) :
    P _ (h.statementRest statement marks) := by
  apply hP.bind (currentSpan_closed hP)
  intro start
  apply hP.get
  intro r
  split
  · exact forStatement_closed hP hh hs marks
  · exact hP.bind (block_closed hP hh hs) fun b => headed_closed hP start marks _
  · apply hP.bind (condition_closed hP _)
    intro c
    apply hP.bind hs
    intro thenBranch
    apply hP.bind (hP.acceptKind _)
    intro accepted
    cases accepted with
    | true => exact hP.bind hs fun elseBranch => headed_closed hP start marks _
    | false => exact headed_closed hP start marks _
  · apply hP.bind (condition_closed hP _)
    intro c
    exact hP.bind hs fun body => headed_closed hP start marks _
  · apply hP.bind hP.advance
    intro _
    apply hP.bind (optionalValue_closed hP)
    intro value
    exact hP.bind (hP.expect _ _) fun _ => headed_closed hP start marks _
  · exact hP.bind hP.advance fun _ => headed_closed hP start marks _
  · exact hP.bind (declaration_closed hP hh) fun ds => headed_closed hP start marks _
  · apply hP.bind (expression_closed hP)
    intro x
    exact hP.bind (hP.expect _ _) fun _ => headed_closed hP start marks _

end

theorem statementFor_closed (rounds : List Item) : P _ (h.statementFor rounds) := by
  induction rounds with
  | nil => exact hP.fail _ rfl
  | cons _ rounds ih =>
    exact hP.bind (attributes_closed hP) fun marks => statementRest_closed hP hh ih marks

theorem statement_closed : P _ h.statement :=
  hP.get fun r => statementFor_closed hP hh r.remaining

theorem functionRest_closed : P _ h.functionRest := by
  apply hP.bind (hP.expect _ _)
  intro _
  apply hP.bind (parameters_closed hP hh)
  intro params
  apply hP.bind (hP.expect _ _)
  intro _
  exact hP.bind (block_closed hP hh (statement_closed hP hh)) fun b => hP.pure _

theorem function_closed : P _ h.function := by
  apply hP.bind (attributes_closed hP)
  intro marks
  apply hP.bind (currentSpan_closed hP)
  intro start
  apply hP.bind (typeName_closed hP)
  intro type
  apply hP.bind (hP.name _)
  intro name
  apply hP.bind (hP.inScope (functionRest_closed hP hh))
  intro p
  exact hP.bind (spanFrom_closed hP start) fun span => hP.pure _

theorem programItem_closed : P _ h.programItem :=
  hP.itemUnless fun _ => hh.function (function_closed hP hh)

theorem functions_closed : P _ h.functions :=
  hP.bind (hP.many (programItem_closed hP hh)) fun _ => hP.pure _

end Handling

end Grammar

end LoopNest
