import LoopNest.Proofs.Grammar.ReadStmt
import LoopNest.Proofs.Stmt.Words

/-!
# Where the expressions of a program are read

The grammar of statements leaves every expression to the grammar of expressions. What that one
provides, holds of every expression of a program, those in attributes and in headers included.

* `Parse.Provides`: a step that goes well, in a run without problems, has a result with the property.
* `Parse.Provides.bind`, `Parse.Provides.many`: one rule for each way to build a step from others.
* `Grammar.statement_provides`, `Grammar.functions_provides`: what is provided for expressions is so
  for those in statements and in functions.
* `Program.expressions_read`: every expression of a program was read by the grammar of expressions.
-/

namespace LoopNest

namespace Parse

variable {α β : Type} {items : List Item}

/-- Where a run without problems goes from a sound reader over the step, the result has the property,
whatever the reader. -/
def Provides (items : List Item) (step : Parse α) (P : α → Prop) : Prop :=
  ∀ r, step.Ensures items r fun a _ => P a

namespace Provides

variable {step : Parse α} {P P' : α → Prop} {R : β → Prop} {Q : Reader → α → Reader → Prop}

theorem of_ensures (h : ∀ r, step.Ensures items r fun a r' => Q r a r')
    (himp : ∀ r a r', Q r a r' → P a) : step.Provides items P :=
  fun r => (h r).mono fun a r' _ _ _ hq => himp r a r' hq

theorem mono (h : step.Provides items P) (himp : ∀ a, P a → P' a) : step.Provides items P' :=
  of_ensures h fun _ a _ => himp a

theorem pure {a : α} (h : P a) : Provides items (Pure.pure a) P := fun _ => .pure fun _ => h

theorem fail (cause : Problem.Cause) : Provides items (Parse.fail cause) P := fun _ => .fail cause

/-- The first result has its property only if the whole run is one without problems. -/
theorem bind {next : α → Parse β} (h : step.Provides items P)
    (hnext : ∀ a, (next a).Provides items fun b => P a → R b) : (step >>= next).Provides items R :=
  fun r => (h r).bind fun a r₁ => (hnext a r₁).mono fun _ _ _ _ _ hb _ _ _ ha => hb ha

/-- The result of the first step does not matter. -/
theorem after {next : α → Parse β} (h : ∀ r, step.Ensures items r fun a r' => Q r a r')
    (hnext : ∀ a, (next a).Provides items R) : (step >>= next).Provides items R :=
  (of_ensures (P := fun _ => True) h fun _ _ _ _ => trivial).bind fun a =>
    (hnext a).mono fun _ hb _ => hb

theorem get {next : Reader → Parse α} (h : ∀ r, (next r).Provides items P) :
    (MonadStateOf.get >>= next).Provides items P := fun r => h r r

theorem many {item : Parse (Option α)} (h : item.Provides items fun o => ∀ a ∈ o, P a) :
    (Parse.many item).Provides items fun as => ∀ a ∈ as, P a := by
  have hrounds (rounds : List Item) :
      (manyFor item rounds).Provides items fun as => ∀ a ∈ as, P a := by
    induction rounds with
    | nil => exact pure fun a ha => absurd ha List.not_mem_nil
    | cons _ rounds ih =>
      refine h.bind fun o => ?_
      cases o with
      | none => exact pure fun _ a ha => absurd ha List.not_mem_nil
      | some a => exact ih.bind fun as => pure fun has ha => List.forall_mem_cons.mpr ⟨ha a rfl, has⟩
  exact get fun r => hrounds r.remaining

theorem commaSeparated (h : step.Provides items P) :
    (Parse.commaSeparated step).Provides items fun as => ∀ a ∈ as, P a := by
  refine h.bind fun a => ?_
  refine (many (P := P) ?_).bind fun as => pure fun has ha => List.forall_mem_cons.mpr ⟨ha, has⟩
  refine after (Ensures.acceptKind _) fun accepted => ?_
  cases accepted with
  | false => exact pure fun a ha => by cases ha
  | true => exact h.bind fun a => pure fun ha b hb => by cases hb; exact ha

theorem inScope (h : step.Provides items P) : (Parse.inScope step).Provides items P :=
  of_ensures (Ensures.inScope h) fun _ _ _ ⟨_, _, hp, _⟩ => hp

/-- Items that are recovered from, unless there is none left. -/
theorem manyItems (stop : Reader → Bool) {recover : Reader → Reader → Reader}
    (h : step.Provides items P) (hrecover : ∀ r s, (recover r s).problems = s.problems) :
    (Parse.many (Parse.itemUnless stop fun r => Parse.recovering step (recover r))).Provides items
      fun found => ∀ a ∈ found.filterMap id, P a :=
  Ensures.manyItems (S := fun _ a _ => P a) (I := fun _ as _ => ∀ a ∈ as, P a) stop h hrecover
    (fun _ _ ha => absurd ha List.not_mem_nil) fun _ ha has => List.forall_mem_cons.mpr ⟨ha, has⟩

end Provides

end Parse

namespace Grammar

open Parse

variable {items : List Item} {P : Expr → Prop} (hP : expression.Provides items P)
include hP

/-! ## Attributes and declarations -/

theorem attributeArguments_provides :
    attributeArguments.Provides items fun xs => ∀ x ∈ xs, P x := by
  refine .after (Ensures.acceptKind _) fun accepted => ?_
  cases accepted with
  | false => exact .pure fun x hx => absurd hx List.not_mem_nil
  | true =>
    have harguments : (arguments expression).Provides items fun xs => ∀ x ∈ xs, P x := by
      refine .get fun r => ?_
      split
      · exact .pure fun x hx => absurd hx List.not_mem_nil
      · exact hP.commaSeparated
    exact harguments.bind fun xs => .after (Ensures.expect _ _) fun _ => .pure id

theorem oneAttribute_provides :
    oneAttribute.Provides items fun o => ∀ a ∈ o, ∀ x ∈ a.args, P x := by
  refine .after currentSpan_ensures fun start => .after (Ensures.acceptKind _) fun accepted => ?_
  cases accepted with
  | false => exact .pure fun a ha => by cases ha
  | true =>
    refine .after (Ensures.name _) fun name => (attributeArguments_provides hP).bind fun args => ?_
    refine .after (fun r => spanFrom_ensures r start) fun span => .pure fun hargs a ha => ?_
    cases ha
    exact hargs

theorem attributes_provides :
    attributes.Provides items fun marks => ∀ x ∈ marks.flatMap Attribute.args, P x := by
  refine (oneAttribute_provides hP).many.mono fun marks hmarks x hx => ?_
  obtain ⟨a, ha, hx⟩ := List.mem_flatMap.mp hx
  exact hmarks a ha x hx

theorem initializer_provides : initializer.Provides items fun o => ∀ x ∈ o, P x := by
  refine .after (Ensures.acceptKind _) fun accepted => ?_
  cases accepted with
  | false => exact .pure fun x hx => by cases hx
  | true => exact hP.bind fun x => .pure fun hx y hy => by cases hy; exact hx

theorem declarator_provides (type : VarType) :
    (declarator type).Provides items fun d => ∀ x ∈ d.value, P x := by
  refine .after currentSpan_ensures fun start => .after stars_ensures fun depth => ?_
  refine .after currentSpan_ensures fun nameSpan => .after (Ensures.name _) fun name => ?_
  refine .after arrayBrackets_ensures fun n => (initializer_provides hP).bind fun value => ?_
  refine .after (Ensures.declare _ _ _) fun v => ?_
  exact .after (fun r => spanFrom_ensures r start) fun span => .pure id

theorem declaration_provides :
    declaration.Provides items fun ds => ∀ x ∈ ds.flatMap fun d => d.value.toList, P x := by
  refine .after typeName_ensures fun type => ?_
  refine (declarator_provides hP type).commaSeparated.bind fun ds => ?_
  refine .after (Ensures.expect _ _) fun _ => .pure fun hds x hx => ?_
  obtain ⟨d, hd, hx⟩ := List.mem_flatMap.mp hx
  exact hds d hd x (Option.mem_toList.mp hx)

/-! ## Parts of statements -/

omit hP in
/-- What stands in a statement that has no attributes of its own and none below it. -/
theorem forall_expressions_of_values {s : Stmt} (hmarks : s.attributes = []) (hbelow : s.children = [])
    (h : ∀ x ∈ s.values, P x) : ∀ x ∈ s.expressions, P x :=
  (Stmt.forall_expressions_iff s).mpr ⟨by simp [hmarks], h, by simp [hbelow]⟩

theorem initClause_provides : initClause.Provides items fun s => ∀ x ∈ s.expressions, P x := by
  refine .after currentSpan_ensures fun start => .after (Ensures.acceptKind _) fun accepted => ?_
  cases accepted with
  | true => exact .pure (forall_expressions_of_values rfl rfl fun x hx => absurd hx List.not_mem_nil)
  | false =>
    refine .get fun r => ?_
    split
    · refine (declaration_provides hP).bind fun ds => ?_
      refine .after (fun r => spanFrom_ensures r start) fun span => .pure fun hds => ?_
      exact forall_expressions_of_values rfl rfl hds
    · refine hP.bind fun x => .after (Ensures.expect _ _) fun _ => .pure fun hx => ?_
      exact forall_expressions_of_values rfl rfl (List.forall_mem_singleton.mpr hx)

theorem clause_provides (stops : List Symbol) :
    (clause stops).Provides items fun s => ∀ x ∈ s.expressions, P x := by
  refine .get fun r => ?_
  split
  · exact .pure (forall_expressions_of_values rfl rfl fun x hx => absurd hx List.not_mem_nil)
  · refine hP.bind fun x => .pure fun hx => ?_
    exact forall_expressions_of_values rfl rfl (List.forall_mem_singleton.mpr hx)

theorem headerAttributes_provides :
    headerAttributes.Provides items fun marks => ∀ x ∈ marks.flatMap Attribute.args, P x := by
  refine .after (Ensures.acceptKind _) fun accepted => ?_
  cases accepted with
  | true => exact attributes_provides hP
  | false => exact .pure fun x hx => absurd hx List.not_mem_nil

theorem condition_provides (place : Place) : (condition place).Provides items P := by
  refine .after Ensures.advance fun _ => .after (Ensures.expect _ _) fun _ => ?_
  exact hP.bind fun x => .after (Ensures.expect _ _) fun _ => .pure id

theorem optionalValue_provides : optionalValue.Provides items fun o => ∀ x ∈ o, P x := by
  refine .get fun r => ?_
  split
  · exact .pure fun x hx => by cases hx
  · exact hP.bind fun x => .pure fun hx y hy => by cases hy; exact hx

/-! ## Statements -/

omit hP in
/-- What stands in a statement: in its attributes, in the statement itself and in those below it. -/
theorem forall_expressions_of_parts {s : Stmt} {marks : List Attribute} (hmarks : s.attributes = marks)
    (h : ∀ x ∈ marks.flatMap Attribute.args, P x) (hvalues : ∀ x ∈ s.values, P x)
    (hbelow : ∀ t ∈ s.children, ∀ x ∈ t.expressions, P x) : ∀ x ∈ s.expressions, P x :=
  (Stmt.forall_expressions_iff s).mpr ⟨hmarks ▸ h, hvalues, hbelow⟩

section

variable {statement : Parse Stmt} (h : statement.Provides items fun s => ∀ x ∈ s.expressions, P x)
include h

omit hP in
theorem block_provides : (block statement).Provides items fun b =>
    ∀ s ∈ b.statements, ∀ x ∈ s.expressions, P x := by
  have hitems := h.manyItems endsBlock fun r => problems_recoverStatement r.current.span
  unfold block
  rw [blockItem_eq]
  refine .after currentSpan_ensures fun start => .after (Ensures.expect _ _) fun _ => ?_
  refine hitems.inScope.bind fun found => .after (Ensures.expect _ _) fun _ => ?_
  exact .after (fun r => spanFrom_ensures r start) fun span => .pure id

theorem forRest_provides : (forRest statement).Provides items fun p =>
    (∀ x ∈ p.1.flatMap Attribute.args, P x) ∧ (∀ x ∈ p.2.init.expressions, P x) ∧
      (∀ x ∈ p.2.check.expressions, P x) ∧ (∀ x ∈ p.2.update.expressions, P x) ∧
      ∀ x ∈ p.2.body.expressions, P x := by
  refine (initClause_provides hP).bind fun init => (clause_provides hP _).bind fun check => ?_
  refine .after (Ensures.expect _ _) fun _ => (clause_provides hP _).bind fun update => ?_
  refine (headerAttributes_provides hP).bind fun more => .after (Ensures.expect _ _) fun _ => ?_
  refine h.bind fun body => .pure fun hbody hmore hupdate hcheck hinit => ?_
  exact ⟨hmore, hinit, hcheck, hupdate, hbody⟩

theorem forStatement_provides (marks : List Attribute) :
    (forStatement statement marks).Provides items fun s =>
      (∀ x ∈ marks.flatMap Attribute.args, P x) → ∀ x ∈ s.expressions, P x := by
  have hrest := (forRest_provides hP h).inScope
  refine .after currentSpan_ensures fun start => .after Ensures.advance fun _ => ?_
  refine .after (Ensures.expect _ _) fun _ => hrest.bind fun p => ?_
  refine .after (fun r => spanFrom_ensures r start) fun span => .pure fun hp hmarks => ?_
  obtain ⟨hmore, hinit, hcheck, hupdate, hbody⟩ := hp
  refine forall_expressions_of_parts (rfl : _ = marks ++ p.1) ?_ (by simp [Stmt.values]) ?_
  · rw [List.flatMap_append]
    exact List.forall_mem_append.mpr ⟨hmarks, hmore⟩
  · simpa [Stmt.children] using ⟨hinit, hcheck, hupdate, hbody⟩

theorem statementRest_provides (marks : List Attribute) :
    (statementRest statement marks).Provides items fun s =>
      (∀ x ∈ marks.flatMap Attribute.args, P x) → ∀ x ∈ s.expressions, P x := by
  have hhead (start : Span) : (do return (⟨← spanFrom start, marks⟩ : StmtHead) :
      Parse StmtHead).Provides items fun head => head.attributes = marks :=
    .after (fun r => spanFrom_ensures r start) fun span => .pure rfl
  refine .after currentSpan_ensures fun start => .get fun r => ?_
  split
  · exact forStatement_provides hP h marks
  · refine (block_provides h).bind fun b => (hhead start).bind fun head => .pure ?_
    exact fun hh hb hmarks => forall_expressions_of_parts hh hmarks (by simp [Stmt.values]) hb
  · refine (condition_provides hP _).bind fun c => h.bind fun t => ?_
    refine .after (Ensures.acceptKind _) fun accepted => ?_
    cases accepted with
    | true =>
      refine h.bind fun e => (hhead start).bind fun head => .pure fun hh he ht hc hmarks => ?_
      refine forall_expressions_of_parts hh hmarks (List.forall_mem_singleton.mpr hc) ?_
      exact List.forall_mem_cons.mpr ⟨ht, List.forall_mem_singleton.mpr he⟩
    | false =>
      refine (hhead start).bind fun head => .pure fun hh ht hc hmarks => ?_
      exact forall_expressions_of_parts hh hmarks (List.forall_mem_singleton.mpr hc)
        (List.forall_mem_singleton.mpr ht)
  · refine (condition_provides hP _).bind fun c => h.bind fun b => ?_
    refine (hhead start).bind fun head => .pure fun hh hb hc hmarks => ?_
    exact forall_expressions_of_parts hh hmarks (List.forall_mem_singleton.mpr hc)
      (List.forall_mem_singleton.mpr hb)
  · refine .after Ensures.advance fun _ => (optionalValue_provides hP).bind fun value => ?_
    refine .after (Ensures.expect _ _) fun _ => (hhead start).bind fun head => .pure ?_
    intro hh hvalue hmarks
    exact forall_expressions_of_parts hh hmarks (fun x hx => hvalue x (Option.mem_toList.mp hx))
      (by simp [Stmt.children])
  · refine .after Ensures.advance fun _ => (hhead start).bind fun head => .pure fun hh hmarks => ?_
    exact forall_expressions_of_parts hh hmarks (by simp [Stmt.values]) (by simp [Stmt.children])
  · refine (declaration_provides hP).bind fun ds => (hhead start).bind fun head => .pure ?_
    exact fun hh hds hmarks => forall_expressions_of_parts hh hmarks hds (by simp [Stmt.children])
  · refine hP.bind fun x => .after (Ensures.expect _ _) fun _ => (hhead start).bind fun head => ?_
    refine .pure fun hh hx hmarks => ?_
    exact forall_expressions_of_parts hh hmarks (List.forall_mem_singleton.mpr hx)
      (by simp [Stmt.children])

end

theorem statement_provides : statement.Provides items fun s => ∀ x ∈ s.expressions, P x := by
  have hrounds (rounds : List Item) :
      (statementFor rounds).Provides items fun s => ∀ x ∈ s.expressions, P x := by
    induction rounds with
    | nil => exact .fail _
    | cons _ rounds ih =>
      exact (attributes_provides hP).bind fun marks => statementRest_provides hP ih marks
  exact .get fun r => hrounds r.remaining

/-! ## Functions -/

theorem functionRest_provides : functionRest.Provides items fun p =>
    ∀ s ∈ p.2.statements, ∀ x ∈ s.expressions, P x := by
  refine .after (Ensures.expect _ _) fun _ => .after parameters_ensures fun params => ?_
  refine .after (Ensures.expect _ _) fun _ => ?_
  exact (block_provides (statement_provides hP)).bind fun body => .pure id

theorem function_provides : function.Provides items fun f => ∀ x ∈ f.expressions, P x := by
  refine (attributes_provides hP).bind fun marks => .after currentSpan_ensures fun start => ?_
  refine .after typeName_ensures fun type => .after (Ensures.name _) fun name => ?_
  refine (functionRest_provides hP).inScope.bind fun p => ?_
  refine .after (fun r => spanFrom_ensures r start) fun span => .pure fun hbody hmarks => ?_
  refine List.forall_mem_append.mpr ⟨hmarks, fun x hx => ?_⟩
  obtain ⟨s, hs, hx⟩ := List.mem_flatMap.mp hx
  exact hbody s hs x hx

theorem functions_provides :
    functions.Provides items fun fs => ∀ f ∈ fs, ∀ x ∈ f.expressions, P x :=
  ((function_provides hP).manyItems Reader.atEnd fun _ => problems_recoverFunction).bind fun _ =>
    .pure id

omit hP in
/-- The expression that is provided is one that is read where the reader stands. -/
theorem expression_provides : expression.Provides items fun x =>
    ∃ r r', r.Sound items ∧ expression r = (.ok x, r') := by
  intro r hclean
  obtain ⟨hstart, hrun⟩ := expression_ensures r hclean
  refine ⟨hstart, fun hsound x hx => ?_⟩
  obtain ⟨hsound', hleads, -⟩ := hrun hsound x hx
  exact ⟨hsound', hleads, r, (expression r).2, hsound, Prod.ext hx rfl⟩

end Grammar

/-- Every expression of a program was read by the grammar of expressions, in a sound reader of the
source text. -/
theorem Program.expressions_read {source : String} {p : Program} (hp : read source = .ok p) :
    ∀ x ∈ p.expressions, ∃ r r', r.Sound (scan source) ∧ Grammar.expression r = (.ok x, r') := by
  obtain ⟨_, _, -, -, hfs⟩ := of_ensures hp (Grammar.functions_provides Grammar.expression_provides)
  intro x hx
  obtain ⟨f, hf, hx⟩ := List.mem_flatMap.mp hx
  exact hfs f hf x hx

end LoopNest
