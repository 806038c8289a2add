import LoopNest.Grammar.Stmt
import LoopNest.Proofs.Grammar.Consumes
import LoopNest.Proofs.Grammar.ReadExpr
import LoopNest.Proofs.Grammar.Sizes
import LoopNest.Proofs.Token.Ending

/-!
# Statements that are read

Every reader of the grammar of statements yields trees that may be read where it stood.

* `Grammar.declaration_ensures`, `Grammar.statement_ensures`, `Grammar.function_ensures`: so it is
  for declarations, statements and functions.
* `Program.readIn_of_read`: and so for all functions of a program that was read.
-/

namespace LoopNest

/-! ## Spans -/

namespace Span

variable {s t : Span}

theorem not_isNone (h : 0 < s.start.line) : s.isNone = false := by
  have hne : (s.start.line == 0) = false := beq_false_of_ne (Nat.ne_of_gt h)
  rw [isNone, hne, Bool.false_and]

theorem merge_start_le (h : 0 < s.start.line) :
    (s.merge t).start.offset ≤ s.start.offset := by
  rw [merge, if_neg (by simp [not_isNone h])]
  split
  · exact Nat.le_refl _
  · dsimp only
    split
    · exact Nat.le_refl _
    · omega

theorem le_merge_start (h : 0 < s.start.line) (hle : s.start.offset ≤ t.start.offset) :
    s.start.offset ≤ (s.merge t).start.offset := by
  rw [merge, if_neg (by simp [not_isNone h])]
  split <;> exact Nat.le_refl _

end Span

namespace Grammar

open Parse

variable {items : List Item} (r : Reader)

theorem spanFrom_ensures (start : Span) :
    (spanFrom start).Ensures items r fun s r' => r' = r ∧ s = start.merge r.previous.span :=
  .get (.pure fun _ => ⟨rfl, rfl⟩)

theorem currentSpan_ensures : currentSpan.Ensures items r fun s r' => r' = r ∧ s = r.current.span :=
  .get (.pure fun _ => ⟨rfl, rfl⟩)

/-! ## Attributes -/

theorem attributeArguments_ensures :
    attributeArguments.Ensures items r fun xs r' => r.context.Reads xs r'.context := by
  unfold attributeArguments
  refine (Ensures.acceptKind _ r).bind fun accepted r₁ => ?_
  cases accepted with
  | true =>
    refine (arguments_ensures expression_ensures r₁).bind fun args r₂ => ?_
    refine (Ensures.expect _ _ r₂).bind fun _ r₃ => .pure ?_
    intro _ _ _ _ hclose _ _ _ hargs _ _ _ hopen
    rw [hclose.1, ← hopen.1]
    exact hargs
  | false =>
    refine .pure fun _ _ _ _ hclosed => ?_
    rw [hclosed.1]
    exact .nil _

theorem oneAttribute_ensures : oneAttribute.Ensures items r fun o r' => o.elim (r' = r) fun a =>
    Text.IsName a.name ∧ r.context.Reads a.args r'.context ∧
      r.current.span.start.offset ≤ a.span.start.offset ∧
        a.span.start.offset ≤ r'.current.span.start.offset := by
  unfold oneAttribute
  refine (currentSpan_ensures r).bind fun start r₁ => ?_
  refine (Ensures.acceptKind _ r₁).bind fun accepted r₂ => ?_
  cases accepted with
  | true =>
    refine (Ensures.name _ r₂).bind fun name r₃ => ?_
    refine (attributeArguments_ensures r₃).bind fun args r₄ => ?_
    refine (spanFrom_ensures r₄ start).bind fun span r₅ => .pure ?_
    intro _ _ _ _ hspan _ _ hleads₄ hargs _ _ hleads₃ hname _ _ hleads₂ hopen hsound _ _ hstart
    obtain ⟨rfl, rfl⟩ := hspan
    obtain ⟨rfl, rfl⟩ := hstart
    rw [hname.2.1, hopen.1] at hargs
    have hline := hsound.current_proper.line_pos
    have hprevious := (hleads₃.trans hleads₄).previous_le
    rw [hopen.2.2] at hprevious
    refine ⟨hname.1, hargs, Span.le_merge_start hline hprevious,
      Nat.le_trans (Span.merge_start_le hline) ?_⟩
    exact (hleads₂.trans (hleads₃.trans hleads₄)).current_le
  | false =>
    refine .pure fun _ _ _ _ hclosed _ _ _ hstart => ?_
    exact hclosed.2.1.trans hstart.1

/-- The attributes start between the current token and the one behind them. -/
theorem attributes_ensures : attributes.Ensures items r fun marks r' =>
    r.context.ReadsMarks marks r'.context ∧
      ∀ a ∈ marks, r.current.span.start.offset ≤ a.span.start.offset ∧
        a.span.start.offset ≤ r'.current.span.start.offset := by
  refine Ensures.many
    (I := fun r marks r' => r.context.ReadsMarks marks r'.context ∧
      ∀ a ∈ marks, r.current.span.start.offset ≤ a.span.start.offset ∧
        a.span.start.offset ≤ r'.current.span.start.offset)
    oneAttribute_ensures (fun r => ⟨⟨by simp, .nil _⟩, by simp⟩) ?_ r
  intro r a r₁ marks r₂ hleads ha hmarks
  obtain ⟨hname, hargs, hstart, hend⟩ := ha
  refine ⟨⟨?_, ?_⟩, List.forall_mem_cons.mpr ⟨⟨hstart, ?_⟩, fun b hb => ⟨?_, ?_⟩⟩⟩
  · exact List.forall_mem_cons.mpr ⟨hname, hmarks.1.1⟩
  · rw [List.flatMap_cons]
    exact hargs.append hmarks.1.2
  · exact Nat.le_trans hend hleads.current_le
  · exact Nat.le_trans hstart (Nat.le_trans hend (hmarks.2 b hb).1)
  · exact (hmarks.2 b hb).2

/-! ## Types and declarations -/

/-- A step that is repeated and each time leaves all names as they are. -/
theorem many_ensures_context {α : Type} {item : Parse (Option α)}
    (h : ∀ r, item.Ensures items r fun o r' => o.elim (r' = r) fun _ => r'.context = r.context) :
    (many item).Ensures items r fun _ r' => r'.context = r.context :=
  Ensures.many (I := fun r _ r' => r'.context = r.context) h (fun _ => rfl)
    (fun _ hfirst hrest => hrest.trans hfirst) r

theorem optional_ensures (s : Symbol) : (optional s).Ensures items r fun o r' =>
    o.elim (r' = r) fun _ => r'.context = r.context := by
  refine (Ensures.acceptKind _ r).bind fun accepted r₁ => ?_
  cases accepted with
  | true => exact .pure fun _ _ _ _ h => h.1
  | false => exact .pure fun _ _ _ _ h => h.2.1

theorem stars_ensures : stars.Ensures items r fun _ r' => r'.context = r.context := by
  rw [stars_eq]
  refine (many_ensures_context r fun r => optional_ensures r .star).bind fun _ r₁ => ?_
  exact .pure fun _ _ _ _ h => h

theorem longItem_ensures : longItem.Ensures items r fun o r' =>
    o.elim (r' = r) fun _ => r'.context = r.context := by
  refine (Ensures.acceptKind _ r).bind fun accepted r₁ => ?_
  cases accepted with
  | true => exact .pure fun _ _ _ _ h => h.1
  | false =>
    refine (Ensures.acceptKind _ r₁).bind fun accepted r₂ => ?_
    cases accepted with
    | true => exact .pure fun _ _ _ _ h _ _ _ h' => h.1.trans h'.1
    | false => exact .pure fun _ _ _ _ h _ _ _ h' => h.2.1.trans h'.2.1

theorem longRest_ensures : longRest.Ensures items r fun _ r' => r'.context = r.context := by
  rw [longRest_eq]
  refine (many_ensures_context r longItem_ensures).bind fun _ r₁ => ?_
  exact .pure fun _ _ _ _ h => h

theorem typeName_ensures : typeName.Ensures items r fun _ r' => r'.context = r.context := by
  unfold typeName
  refine .get ?_
  split
  · next base _ =>
    refine (Ensures.advance r).bind fun _ r₁ => ?_
    split
    · refine (longRest_ensures r₁).bind fun _ r₂ => (stars_ensures r₂).bind fun _ r₃ => .pure ?_
      exact fun _ _ _ _ h₃ _ _ _ h₂ _ _ _ h₁ => h₃.trans (h₂.trans h₁.2)
    · refine (stars_ensures r₁).bind fun _ r₂ => .pure ?_
      exact fun _ _ _ _ h₂ _ _ _ h₁ => h₂.trans h₁.2
  · exact .fail _

/-- Brackets are read up to a token that opens none, and names in them are used. -/
def Bracketed (r r' : Reader) : Prop :=
  ∃ vs ts nss, r.context.Refers vs r'.context ∧ r.remaining = ts.map .token ++ r'.remaining ∧
    Rows IsSize ts nss ∧ vs.map VarRef.name = nss.flatten ∧
      r'.current.kind ≠ .symbol .leftBracket

/-- One pair of brackets is read. -/
def BracketedOnce (r r' : Reader) : Prop :=
  ∃ vs ts, r.context.Refers vs r'.context ∧ r.remaining = ts.map .token ++ r'.remaining ∧
    IsSize ts (vs.map VarRef.name)

theorem many_ensures_bracketed {item : Parse (Option Unit)}
    (h : ∀ r, item.Ensures items r fun o r' =>
      o.elim (r' = r ∧ r.current.kind ≠ .symbol .leftBracket) fun _ => BracketedOnce r r') :
    (many item).Ensures items r fun _ r' => Bracketed r r' := by
  refine Ensures.manyUntil (I := fun r _ r' => Bracketed r r')
    (N := fun r => r.current.kind ≠ .symbol .leftBracket) (S := fun r _ r' => BracketedOnce r r')
    (fun r => (h r).mono ?_) (fun r hr => ⟨[], [], [], .nil _, rfl, .nil, rfl, hr⟩) ?_ r
  · rintro (_ | _) r' _ _ _ ho
    · exact ho
    · obtain ⟨vs, ts, hvs, hremaining, hsize⟩ := ho
      refine ⟨?_, vs, ts, hvs, hremaining, hsize⟩
      obtain ⟨t, us, u, rfl, _⟩ := hsize
      rw [hremaining, List.length_append]
      simp
  · rintro r _ r₁ _ r₂ ⟨vs, ts, hvs, hremaining, hsize⟩
      ⟨ws, us, nss, hws, hrest, hrows, hnames, hstop⟩
    refine ⟨vs ++ ws, ts ++ us, _, hvs.append hws, ?_, .cons hsize hrows, ?_, hstop⟩
    · rw [hremaining, hrest, List.map_append, List.append_assoc]
    · rw [List.map_append, hnames, List.flatten_cons]

/-- An expression in brackets, the first of which is read already. -/
theorem closeBracket_ensures (place : Place) :
    (do let _ ← expression; expect .rightBracket place; return some () :
      Parse (Option Unit)).Ensures items r fun o r' => ∃ vs ts u, o = some () ∧
        r.context.Refers vs r'.context ∧ r.remaining = (ts ++ [u]).map .token ++ r'.remaining ∧
        u.kind = .symbol .rightBracket ∧ Uses ts (vs.map VarRef.name) := by
  refine ((expression_ensures r).consumes (expression_consumes r)).bind fun x r₁ => ?_
  refine ((Ensures.expect _ _ r₁).consumes (Consumes.expect _ _ r₁)).bind fun _ r₂ => .pure ?_
  intro _ _ _ _ hclose _ _ _ hx
  obtain ⟨hclose, _, hclosed, u, rfl, hu⟩ := hclose
  obtain ⟨hx, ts, hremaining, hderives⟩ := hx
  refine ⟨x.refs, ts, u, rfl, hclose.1 ▸ hx.2.2, ?_, hu, hderives.uses⟩
  rw [hremaining, hclosed, List.map_append, List.append_assoc]

theorem openBracket_ensures {rest : Parse (Option Unit)}
    (h : ∀ r, rest.Ensures items r fun o r' => ∃ vs ts u, o = some () ∧
      r.context.Refers vs r'.context ∧ r.remaining = (ts ++ [u]).map .token ++ r'.remaining ∧
      u.kind = .symbol .rightBracket ∧ Uses ts (vs.map VarRef.name)) :
    (do if ← accept .leftBracket then rest else pure none : Parse (Option Unit)).Ensures items r
      fun o r' => o.elim (r' = r ∧ r.current.kind ≠ .symbol .leftBracket) fun _ =>
        BracketedOnce r r' := by
  refine ((Ensures.acceptKind _ r).consumes (Consumes.acceptKind (by simp) r)).bind
    fun accepted r₁ => ?_
  cases accepted with
  | false => exact .pure fun _ _ _ _ h => ⟨h.1.2.1, h.1.2.2⟩
  | true =>
    refine (h r₁).mono fun o r₂ _ _ _ hrest _ _ _ hopen => ?_
    obtain ⟨vs, ts, u, rfl, hvs, hremaining, hu, huses⟩ := hrest
    obtain ⟨hopen, _, hopened, t, rfl, ht⟩ := hopen
    refine ⟨vs, t :: (ts ++ [u]), hopen.1 ▸ hvs, ?_, t, ts, u, rfl, ht, hu, huses⟩
    rw [hopened, hremaining, List.map_cons]
    rfl

theorem parameterBrackets_ensures :
    parameterBrackets.Ensures items r fun _ r' => Bracketed r r' := by
  unfold parameterBrackets
  refine (many_ensures_bracketed r fun r => ?_).bind fun _ r₁ => .pure fun _ _ _ _ h => h
  refine openBracket_ensures r fun r => .get ?_
  split
  · exact closeBracket_ensures r _
  · refine ((Ensures.expect _ _ r).consumes (Consumes.expect _ _ r)).bind fun _ r₁ => .pure ?_
    rintro _ _ _ _ ⟨hclose, _, hclosed, u, rfl, hu⟩
    exact ⟨[], [], u, rfl, hclose.1 ▸ .nil _, hclosed, hu, .nil⟩

theorem arrayBrackets_ensures : arrayBrackets.Ensures items r fun _ r' => Bracketed r r' := by
  unfold arrayBrackets
  refine (many_ensures_bracketed r fun r => ?_).bind fun _ r₁ => .pure fun _ _ _ _ h => h
  exact openBracket_ensures r fun r => closeBracket_ensures r _

/-- The names in brackets behind a name are those of the sizes of that variable. -/
theorem sized_of_bracketed {r r₁ r₂ : Reader} (h : r.Sound items)
    (hname : r.remaining = .token r.current :: r₁.remaining) (hbrackets : Bracketed r₁ r₂) :
    ∃ vs, r₁.context.Refers vs r₂.context ∧
      vs.map VarRef.name = sizeNames items r.current.span := by
  obtain ⟨vs, ts, nss, hvs, hremaining, hrows, hnames, hstop⟩ := hbrackets
  obtain ⟨before, hitems⟩ := h.within
  have hstrict := h.strict
  rw [hname, hremaining] at hitems
  subst hitems
  refine ⟨vs, hvs, hnames.trans (sizeNames_eq hrows (fun v hv heq => ?_) hstop).symm⟩
  have hlt := (List.pairwise_append.mp hstrict).2.2 _ hv _ List.mem_cons_self v rfl
  rw [heq] at hlt
  exact Nat.lt_irrefl _ hlt

theorem parameter_ensures (type : VarType) : (parameter type).Ensures items r fun v r' =>
    VarRef.ReadIn (sizeNames items) r.context v r'.context := by
  unfold parameter
  refine (stars_ensures r).bind fun depth r₁ => (currentSpan_ensures r₁).bind fun span r₂ => ?_
  refine ((Ensures.name _ r₂).consumes (Consumes.name _ r₂)).bind fun name r₃ => ?_
  refine (parameterBrackets_ensures r₃).bind fun n r₄ => ?_
  refine (Ensures.declare _ _ _ r₄).mono fun v r₅ _ _ _ hv => ?_
  intro _ _ _ hbrackets hsound _ _ hname _ _ _ hspan _ _ _ hstars
  obtain ⟨rfl, rfl⟩ := hspan
  obtain ⟨hname, _, hremaining, rfl⟩ := hname
  obtain ⟨vs, hvs, hnames⟩ := sized_of_bracketed hsound hremaining hbrackets
  rw [hname.2.1, hstars] at hvs
  exact ⟨vs, _, _, hvs, hv.1 ▸ hname.1, hv.2.1, _, hv.2.2.2, hnames⟩

theorem parameterItem_ensures : parameterItem.Ensures items r fun o r' =>
    o.elim (r' = r) fun v => VarRef.ReadIn (sizeNames items) r.context v r'.context := by
  refine (Ensures.acceptKind _ r).bind fun accepted r₁ => ?_
  cases accepted with
  | false => exact .pure fun _ _ _ _ h => h.2.1
  | true =>
    refine (typeName_ensures r₁).bind fun type r₂ => ?_
    refine (parameter_ensures r₂ type).bind fun v r₃ => .pure ?_
    intro _ _ _ _ hv _ _ _ htype _ _ _ hcomma
    rw [htype, hcomma.1] at hv
    exact hv

theorem parameters_ensures : parameters.Ensures items r fun ps r' =>
    r.context.Chain (VarRef.ReadIn (sizeNames items)) ps r'.context := by
  unfold parameters
  refine .get ?_
  split
  · exact .pure fun _ => .nil _
  · refine (typeName_ensures r).bind fun type r₁ => .get ?_
    split
    · refine .pure fun _ _ _ _ htype => ?_
      rw [htype]
      exact .nil _
    · refine (parameter_ensures r₁ type).bind fun v r₂ => ?_
      refine (Ensures.manyChain parameterItem_ensures r₂).bind fun ps r₃ => .pure ?_
      intro _ _ _ _ hps _ _ _ hv _ _ _ htype
      rw [htype] at hv
      exact .cons hv hps

theorem initializer_ensures :
    initializer.Ensures items r fun o r' => r.context.Reads o.toList r'.context := by
  unfold initializer
  refine (Ensures.acceptKind _ r).bind fun accepted r₁ => ?_
  cases accepted with
  | false =>
    refine .pure fun _ _ _ _ h => ?_
    rw [h.1]
    exact .nil _
  | true =>
    refine (expression_ensures r₁).bind fun x r₂ => .pure fun _ _ _ _ hx _ _ _ hequal => ?_
    rw [← hequal.1]
    exact hx.reads

theorem declarator_ensures (type : VarType) : (declarator type).Ensures items r fun d r' =>
    d.ReadIn (sizeNames items) type.base r.context r'.context := by
  unfold declarator
  refine (currentSpan_ensures r).bind fun start r₁ => (stars_ensures r₁).bind fun depth r₂ => ?_
  refine (currentSpan_ensures r₂).bind fun span r₃ => ?_
  refine ((Ensures.name _ r₃).consumes (Consumes.name _ r₃)).bind fun name r₄ => ?_
  refine (arrayBrackets_ensures r₄).bind fun n r₅ => (initializer_ensures r₅).bind fun x r₆ => ?_
  refine (Ensures.declare _ _ _ r₆).bind fun v r₇ => ?_
  refine (spanFrom_ensures r₇ start).bind fun span r₈ => .pure ?_
  intro _ _ _ _ hend _ _ _ hv _ _ _ hvalue _ _ _ hbrackets hsound _ _ hname _ _ _ hspan _ _ _ hstars
    _ _ _ hstart
  obtain ⟨rfl, -⟩ := hend
  obtain ⟨rfl, rfl⟩ := hspan
  obtain ⟨rfl, -⟩ := hstart
  obtain ⟨hname, _, hremaining, rfl⟩ := hname
  obtain ⟨vs, hvs, hnames⟩ := sized_of_bracketed hsound hremaining hbrackets
  rw [hname.2.1, hstars] at hvs
  exact ⟨vs, _, _, type.pointTo (depth + n), hvs, hvalue, hv.1 ▸ hname.1, rfl, hv.2.1, _,
    hv.2.2.2, hnames⟩

theorem declaration_ensures : declaration.Ensures items r fun ds r' =>
    ds ≠ [] ∧ ∃ base, r.context.Chain (Declarator.ReadIn (sizeNames items) base) ds r'.context := by
  unfold declaration
  refine (typeName_ensures r).bind fun type r₁ => ?_
  refine (Ensures.commaSeparated (fun r => declarator_ensures r type) r₁).bind fun ds r₂ => ?_
  refine (Ensures.expect _ _ r₂).bind fun _ r₃ => .pure ?_
  intro _ _ _ _ hclose _ _ _ hds _ _ _ htype
  rw [hclose.1, ← htype]
  exact ⟨hds.1, _, hds.2⟩

/-! ## Headers -/

theorem initClause_ensures : initClause.Ensures items r fun s r' =>
    s.IsInit ∧ s.ReadIn (sizeNames items) r.context r'.context := by
  unfold initClause
  refine (currentSpan_ensures r).bind fun start r₁ => ?_
  refine (Ensures.acceptKind _ r₁).bind fun accepted r₂ => ?_
  have hmarks (c : Context) : c.ReadsMarks [] c := ⟨by simp, .nil c⟩
  cases accepted with
  | true =>
    refine .pure fun _ _ _ _ h _ _ _ hstart => ⟨rfl, ?_⟩
    rw [h.1, hstart.1]
    exact hmarks _
  | false =>
    refine .get ?_
    split
    · refine (declaration_ensures r₂).bind fun ds r₃ => ?_
      refine (spanFrom_ensures r₃ start).bind fun _ r₄ => ?_
      refine .pure fun _ _ _ _ hend _ _ _ hds _ _ _ h _ _ _ hstart => ⟨rfl, ?_⟩
      obtain ⟨hne, base, hchain⟩ := hds
      rw [hend.1, ← hstart.1, ← h.2.1]
      exact ⟨_, base, hmarks _, hne, hchain⟩
    · refine (expression_ensures r₂).bind fun x r₃ => (Ensures.expect _ _ r₃).bind fun _ r₄ => ?_
      refine .pure fun _ _ _ _ hclose _ _ _ hx _ _ _ h _ _ _ hstart => ⟨rfl, ?_⟩
      rw [hclose.1, ← hstart.1, ← h.2.1]
      exact ⟨_, hmarks _, hx.reads⟩

theorem clause_ensures (stops : List Symbol) : (clause stops).Ensures items r fun s r' =>
    s.IsClause ∧ s.ReadIn (sizeNames items) r.context r'.context := by
  have hmarks (c : Context) : c.ReadsMarks [] c := ⟨by simp, .nil c⟩
  unfold clause
  refine .get ?_
  split
  · exact .pure fun _ => ⟨rfl, hmarks _⟩
  · refine (expression_ensures r).bind fun x r₁ => .pure fun _ _ _ _ hx => ⟨rfl, ?_⟩
    exact ⟨_, hmarks _, hx.reads⟩

theorem headerAttributes_ensures : headerAttributes.Ensures items r fun marks r' =>
    r.context.ReadsMarks marks r'.context ∧
      ∀ a ∈ marks, r.current.span.start.offset ≤ a.span.start.offset := by
  unfold headerAttributes
  refine (Ensures.acceptKind _ r).bind fun accepted r₁ => ?_
  cases accepted with
  | true =>
    refine (attributes_ensures r₁).mono fun marks r₂ _ _ _ hmarks _ _ hleads h => ?_
    rw [← h.1]
    exact ⟨hmarks.1, fun a ha => Nat.le_trans hleads.current_le (hmarks.2 a ha).1⟩
  | false =>
    refine .pure fun _ _ _ _ h => ?_
    rw [h.1]
    exact ⟨⟨by simp, .nil _⟩, fun _ ha => absurd ha List.not_mem_nil⟩

/-! ## Recovery -/

theorem problems_recoverStatement (start : Span) (r : Reader) :
    (recoverStatement start r).problems = r.problems := by
  unfold recoverStatement
  dsimp only
  rw [Reader.problems_skipUntil]
  split
  · exact Reader.problems_skip r
  · rfl

theorem problems_recoverFunction (r : Reader) : (recoverFunction r).problems = r.problems := by
  unfold recoverFunction
  dsimp only
  rw [Reader.problems_skipUntil]
  split
  · rfl
  · exact Reader.problems_skip r

/-! ## Statements -/

/-- The statement is read, and no `else` follows that would go with an `if` in it. -/
def ReadsStmt (items : List Item) (c : Context) (s : Stmt) (r' : Reader) : Prop :=
  s.ReadIn (sizeNames items) c r'.context ∧
    (s.isOpen = true → r'.current.kind ≠ .keyword .elseBranch)

section

variable {statement : Parse Stmt}
  (h : ∀ r, statement.Ensures items r fun s r' => ReadsStmt items r.context s r')
include h

theorem forRest_ensures : (forRest statement).Ensures items r fun p r' => ∃ c₁ c₂ c₃ c₄,
    (p.2.init.IsInit ∧ p.2.init.ReadIn (sizeNames items) r.context c₁) ∧
    (p.2.check.IsClause ∧ p.2.check.ReadIn (sizeNames items) c₁ c₂) ∧
    (p.2.update.IsClause ∧ p.2.update.ReadIn (sizeNames items) c₂ c₃) ∧
    (c₃.ReadsMarks p.1 c₄ ∧
      ∀ a ∈ p.1, r.current.span.start.offset ≤ a.span.start.offset) ∧
    ReadsStmt items c₄ p.2.body r' := by
  unfold forRest
  refine (initClause_ensures r).bind fun init r₁ => (clause_ensures r₁ _).bind fun check r₂ => ?_
  refine (Ensures.expect _ _ r₂).bind fun _ r₃ => (clause_ensures r₃ _).bind fun update r₄ => ?_
  refine (headerAttributes_ensures r₄).bind fun marks r₅ => ?_
  refine (Ensures.expect _ _ r₅).bind fun _ r₆ => (h r₆).bind fun body r₇ => .pure ?_
  intro _ _ _ _ hbody _ _ _ hclose _ _ _ hmarks _ _ hleads₄ hupdate _ _ hleads₃ hsemi
    _ _ hleads₂ hcheck _ _ hleads₁ hinit
  rw [hclose.1] at hbody
  rw [hsemi.1] at hupdate
  have hle := (hleads₁.trans (hleads₂.trans (hleads₃.trans hleads₄))).current_le
  exact ⟨_, _, _, _, hinit, hcheck, hupdate,
    ⟨hmarks.1, fun a ha => Nat.le_trans hle (hmarks.2 a ha)⟩, hbody⟩

theorem forStatement_ensures (marks : List Attribute) :
    (forStatement statement marks).Ensures items r fun s r' =>
      ∀ c, c.ReadsMarks marks r.context →
        (∀ a ∈ marks, a.span.start.offset ≤ r.current.span.start.offset) →
        ReadsStmt items c s r' := by
  unfold forStatement
  refine (currentSpan_ensures r).bind fun start r₁ => (Ensures.advance r₁).bind fun _ r₂ => ?_
  refine ((Ensures.expect _ _ r₂).consumes (Consumes.expect _ _ r₂)).bind fun _ r₃ => ?_
  refine (Ensures.inScope (fun r => forRest_ensures r h) r₃).bind fun p r₄ => ?_
  refine (spanFrom_ensures r₄ start).bind fun span r₅ => .pure ?_
  intro _ _ _ _ hspan _ _ hleads₄ hrest hsound₂ _ hleads₃ hopen _ _ hleads₂ hrun hsound _ _ hstart
    c hmarks hbefore
  obtain ⟨rfl, rfl⟩ := hspan
  obtain ⟨rfl, rfl⟩ := hstart
  obtain ⟨hopen, _, hopened, t, rfl, -⟩ := hopen
  obtain ⟨r₆, r₇, ⟨c₁, c₂, c₃, c₄, hinit, hcheck, hupdate, ⟨hbehind, hinside⟩, hbody⟩, hpush,
    hcurrent₆, -, hpop, hcurrent, -⟩ := hrest
  have hstart : r₁.current.span.start.offset ≤ r₅.previous.span.start.offset := by
    rw [← hrun.1]
    exact (hleads₃.trans hleads₄).previous_le
  have hspan := Span.le_merge_start hsound.current_proper.line_pos hstart
  have hspan' := Span.merge_start_le (t := r₅.previous.span) hsound.current_proper.line_pos
  have hle := hleads₂.current_le
  have hremaining : r₂.remaining = .token r₂.current :: r₃.remaining := by
    rw [hopened, (List.cons.inj hopened).1]
    rfl
  have hlt := hsound₂.current_lt hremaining
  rw [hpush, hopen.1, hrun.2] at hinit
  refine ⟨⟨marks, p.1, _, c₁, c₂, c₃, c₄, _, ⟨rfl, fun a ha => ?_, fun a ha => ?_⟩, hmarks, hinit,
    hcheck, hupdate, hbehind, hbody.1, hpop⟩, ?_⟩
  · have hle := hbefore a ha
    change ¬ (r₁.current.span.merge r₅.previous.span).start.offset < a.span.start.offset
    omega
  · have hle := hinside a ha
    rw [hcurrent₆] at hle
    change (r₁.current.span.merge r₅.previous.span).start.offset < a.span.start.offset
    omega
  · rw [hcurrent]
    exact hbody.2

theorem block_ensures : (block statement).Ensures items r fun b r' =>
    ∃ c, Stmt.ReadAllIn (sizeNames items) b.statements r.context.push c ∧ r'.context = c.pop := by
  have hitems := Ensures.manyItems
    (I := fun r ss r' => Stmt.ReadAllIn (sizeNames items) ss r.context r'.context)
    endsBlock h (fun r => problems_recoverStatement r.current.span) (fun _ => rfl)
    fun _ hs hrest => ⟨_, hs.1, hrest⟩
  unfold block
  rw [blockItem_eq]
  refine (currentSpan_ensures r).bind fun start r₁ => (Ensures.expect _ _ r₁).bind fun _ r₂ => ?_
  refine (Ensures.inScope hitems r₂).bind fun items r₃ => ?_
  refine (Ensures.expect _ _ r₃).bind fun _ r₄ => (spanFrom_ensures r₄ start).bind fun _ r₅ => ?_
  refine .pure fun _ _ _ _ hend _ _ _ hclose _ _ _ hrest _ _ _ hopen _ _ _ hstart => ?_
  obtain ⟨r₆, r₇, hrest, hpush, -, -, hpop, -, -⟩ := hrest
  rw [hpush, hopen.1, hstart.1] at hrest
  refine ⟨_, hrest, ?_⟩
  rw [hend.1, hclose.1, hpop]

omit h in
theorem condition_ensures (place : Place) :
    (condition place).Ensures items r fun x r' => r.context.Reads [x] r'.context := by
  unfold condition
  refine (Ensures.advance r).bind fun _ r₁ => (Ensures.expect _ _ r₁).bind fun _ r₂ => ?_
  refine (expression_ensures r₂).bind fun x r₃ => (Ensures.expect _ _ r₃).bind fun _ r₄ => ?_
  refine .pure fun _ _ _ _ hclose _ _ _ hx _ _ _ hopen _ _ _ hrun => ?_
  rw [hclose.1, ← hrun.2, ← hopen.1]
  exact hx.reads

omit h in
theorem optionalValue_ensures :
    optionalValue.Ensures items r fun o r' => r.context.Reads o.toList r'.context := by
  unfold optionalValue
  refine .get ?_
  split
  · exact .pure fun _ => .nil _
  · exact (expression_ensures r).bind fun x r₁ => .pure fun _ _ _ _ hx => hx.reads

theorem statementRest_ensures (marks : List Attribute) :
    (statementRest statement marks).Ensures items r fun s r' =>
      ∀ c, c.ReadsMarks marks r.context →
        (∀ a ∈ marks, a.span.start.offset ≤ r.current.span.start.offset) →
        ReadsStmt items c s r' := by
  have hhead (start : Span) (r : Reader) :
      (do return (⟨← spanFrom start, marks⟩ : StmtHead) : Parse StmtHead).Ensures items r
        fun head r' => r' = r ∧ head.attributes = marks := by
    refine (spanFrom_ensures r start).bind fun span r₁ => .pure ?_
    exact fun _ _ _ _ h => ⟨h.1, rfl⟩
  unfold statementRest
  refine (currentSpan_ensures r).bind fun start r₁ => .get ?_
  split
  · refine (forStatement_ensures r₁ h marks).mono fun s r' _ _ _ hs _ _ _ hstart => ?_
    rw [← hstart.1]
    exact hs
  · refine (block_ensures r₁ h).bind fun b r₂ => (hhead start r₂).bind fun head r₃ => .pure ?_
    intro _ _ _ _ hh _ _ _ hb _ _ _ hstart c hmarks _
    obtain ⟨c₁, hb, hpop⟩ := hb
    rw [hh.1, ReadsStmt]
    rw [hstart.1] at hb
    exact ⟨⟨_, _, hh.2 ▸ hmarks, hb, hpop⟩, by simp [Stmt.isOpen]⟩
  · refine (condition_ensures r₁ _).bind fun x r₂ => (h r₂).bind fun t r₃ => ?_
    refine (Ensures.acceptKind _ r₃).bind fun accepted r₄ => ?_
    cases accepted with
    | true =>
      refine (h r₄).bind fun e r₅ => (hhead start r₅).bind fun head r₆ => .pure ?_
      intro _ _ _ _ hh _ _ _ he _ _ _ helse _ _ _ ht _ _ _ hx _ _ _ hstart c hmarks _
      rw [hh.1]
      rw [hstart.1] at hx
      rw [helse.1] at he
      have hclosed : t.isOpen = false := by
        cases hopen : t.isOpen with
        | false => rfl
        | true => exact absurd helse.2.1 (ht.2 hopen)
      exact ⟨⟨_, _, _, hh.2 ▸ hmarks, hx, ⟨hclosed, ht.1⟩, he.1⟩, he.2⟩
    | false =>
      refine (hhead start r₄).bind fun head r₅ => .pure ?_
      intro _ _ _ _ hh _ _ _ helse _ _ _ ht _ _ _ hx _ _ _ hstart c hmarks _
      rw [hstart.1] at hx
      rw [hh.1, helse.2.1]
      exact ⟨⟨_, _, hh.2 ▸ hmarks, hx, ht.1⟩, fun _ => helse.2.2⟩
  · refine (condition_ensures r₁ _).bind fun x r₂ => (h r₂).bind fun b r₃ => ?_
    refine (hhead start r₃).bind fun head r₄ => .pure ?_
    intro _ _ _ _ hh _ _ _ hb _ _ _ hx _ _ _ hstart c hmarks _
    rw [hstart.1] at hx
    rw [hh.1]
    exact ⟨⟨_, _, hh.2 ▸ hmarks, hx, hb.1⟩, hb.2⟩
  · refine (Ensures.advance r₁).bind fun _ r₂ => (optionalValue_ensures r₂).bind fun v r₃ => ?_
    refine (Ensures.expect _ _ r₃).bind fun _ r₄ => (hhead start r₄).bind fun head r₅ => .pure ?_
    intro _ _ _ _ hh _ _ _ hclose _ _ _ hv _ _ _ hrun _ _ _ hstart c hmarks _
    rw [hrun.2, hstart.1, ← hclose.1] at hv
    rw [hh.1]
    exact ⟨⟨_, hh.2 ▸ hmarks, hv⟩, by simp [Stmt.isOpen]⟩
  · refine (Ensures.advance r₁).bind fun _ r₂ => (hhead start r₂).bind fun head r₃ => .pure ?_
    intro _ _ _ _ hh _ _ _ hrun _ _ _ hstart c hmarks _
    rw [← hstart.1, ← hrun.2] at hmarks
    rw [hh.1]
    exact ⟨(hh.2 ▸ hmarks : c.ReadsMarks head.attributes r₂.context), by simp [Stmt.isOpen]⟩
  · refine (declaration_ensures r₁).bind fun ds r₂ => (hhead start r₂).bind fun head r₃ => .pure ?_
    intro _ _ _ _ hh _ _ _ hds _ _ _ hstart c hmarks _
    obtain ⟨hne, base, hds⟩ := hds
    rw [hstart.1] at hds
    rw [hh.1]
    exact ⟨⟨_, base, hh.2 ▸ hmarks, hne, hds⟩, by simp [Stmt.isOpen]⟩
  · refine (expression_ensures r₁).bind fun x r₂ => (Ensures.expect _ _ r₂).bind fun _ r₃ => ?_
    refine (hhead start r₃).bind fun head r₄ => .pure ?_
    intro _ _ _ _ hh _ _ _ hclose _ _ _ hx _ _ _ hstart c hmarks _
    rw [hstart.1, ← hclose.1] at hx
    rw [hh.1]
    exact ⟨⟨_, hh.2 ▸ hmarks, hx.reads⟩, by simp [Stmt.isOpen]⟩

end

theorem statement_ensures :
    statement.Ensures items r fun s r' => ReadsStmt items r.context s r' := by
  have hrounds (rounds : List Item) (r : Reader) : (statementFor rounds).Ensures items r fun s r' =>
      ReadsStmt items r.context s r' := by
    induction rounds generalizing r with
    | nil => exact .fail _
    | cons _ rounds ih =>
      refine (attributes_ensures r).bind fun marks r₁ => ?_
      refine (statementRest_ensures r₁ ih marks).mono fun s r₂ _ _ _ hs _ _ _ hmarks => ?_
      exact hs _ hmarks.1 fun a ha => (hmarks.2 a ha).2
  exact .get (hrounds r.remaining r)

/-! ## Functions -/

theorem functionRest_ensures : functionRest.Ensures items r fun p r' => ∃ c₁ c₂,
    r.context.Chain (VarRef.ReadIn (sizeNames items)) p.1 c₁ ∧
      Stmt.ReadAllIn (sizeNames items) p.2.statements c₁.push c₂ ∧ r'.context = c₂.pop := by
  unfold functionRest
  refine (Ensures.expect _ _ r).bind fun _ r₁ => (parameters_ensures r₁).bind fun ps r₂ => ?_
  refine (Ensures.expect _ _ r₂).bind fun _ r₃ => ?_
  refine (block_ensures r₃ statement_ensures).bind fun b r₄ => .pure ?_
  intro _ _ _ _ hb _ _ _ hclose _ _ _ hps _ _ _ hopen
  obtain ⟨c, hb, hpop⟩ := hb
  rw [hopen.1, ← hclose.1] at hps
  exact ⟨_, c, hps, hb, hpop⟩

theorem function_ensures : function.Ensures items r fun f r' =>
    f.ReadIn (sizeNames items) r.context r'.context := by
  unfold function
  refine (attributes_ensures r).bind fun marks r₁ => ?_
  refine (currentSpan_ensures r₁).bind fun start r₂ => ?_
  refine (typeName_ensures r₂).bind fun type r₃ => (Ensures.name _ r₃).bind fun name r₄ => ?_
  refine (Ensures.inScope functionRest_ensures r₄).bind fun p r₅ => ?_
  refine (spanFrom_ensures r₅ start).bind fun span r₆ => .pure ?_
  intro _ _ _ _ hend _ _ _ hrest _ _ _ hname _ _ _ htype _ _ _ hstart _ _ _ hmarks
  obtain ⟨r₇, r₈, ⟨c₁, c₂, hps, hb, hc⟩, hpush, -, -, hpop, -, -⟩ := hrest
  have hmarks := hmarks.1
  rw [← hstart.1, ← htype, ← hname.2.1] at hmarks
  rw [hpush] at hps
  rw [hend.1, hpop, hc]
  exact ⟨_, c₁, c₂, hmarks, hname.1, hps, hb, rfl⟩

theorem functions_ensures : functions.Ensures items r fun fs r' =>
    r.context.Chain (Function.ReadIn (sizeNames items)) fs r'.context := by
  have hitems := Ensures.manyItems
    (I := fun r fs r' => r.context.Chain (Function.ReadIn (sizeNames items)) fs r'.context)
    Reader.atEnd function_ensures (fun _ => problems_recoverFunction) (fun _ => .nil _)
    fun _ hf hrest => .cons hf hrest
  exact (hitems r).bind fun found r₁ => .pure fun _ _ _ _ h => h

end Grammar

/-! ## Programs -/

theorem Reader.sound_of_ofSource {source : String} {r : Reader}
    (h : Reader.ofSource source = .ok r) : r.Sound (scan source) ∧ r.context = .initial := by
  obtain ⟨hproper, hsorted⟩ := scan_spec source
  have hclosed := scan_closed source
  have hstrict := scan_strict source
  unfold ofSource at h
  split at h
  · next t items hscan =>
    rw [hscan] at hproper hsorted hclosed hstrict ⊢
    obtain rfl := Except.ok.inj h
    refine ⟨⟨hstrict, List.suffix_rfl, hclosed, Scopes.wellFormed_global, .initial, hproper,
      hproper _ List.mem_cons_self, ?_⟩, rfl⟩
    refine List.pairwise_cons.mpr ⟨fun o ho => ?_, hsorted⟩
    rcases List.mem_cons.mp ho with rfl | ho
    · exact Nat.le_refl _
    · exact (List.pairwise_cons.mp hsorted).1 o ho
  · cases h
  · next hscan =>
    obtain ⟨items, t, hitems, _⟩ := hclosed
    rw [hscan] at hitems
    exact absurd hitems.symm (by simp)

/-- What every run of the grammar of functions ensures, holds of the functions of a program that was
read, with the table of variables behind them. -/
theorem Program.of_ensures {source : String} {p : Program} (hp : Program.read source = .ok p)
    {Q : Reader → List Function → Reader → Prop}
    (h : ∀ r, Grammar.functions.Ensures (scan source) r (Q r)) :
    ∃ r r', r.context = .initial ∧ r'.vars = p.vars ∧ Q r p.functions r' := by
  unfold read at hp
  cases hr : Reader.ofSource source with
  | error f => simp [hr] at hp
  | ok r =>
    obtain ⟨hsound, hcontext⟩ := Reader.sound_of_ofSource hr
    have hrun := h r
    unfold Parse.Ensures at hrun
    rcases hfunctions : Grammar.functions r with ⟨result, r'⟩
    simp only [hr, hfunctions] at hp hrun
    cases result with
    | error failure => cases hp
    | ok fs =>
      dsimp only at hp
      split at hp
      · next hclean =>
        obtain rfl := Except.ok.inj hp
        obtain ⟨-, hread⟩ := hrun (List.isEmpty_iff.mp hclean)
        obtain ⟨-, -, hq⟩ := hread hsound fs rfl
        exact ⟨r, r', hcontext, rfl, hq⟩
      · cases hp

/-- The functions of a program that was read are read from the first name to the last. -/
theorem Program.readIn_of_read {source : String} {p : Program}
    (hp : Program.read source = .ok p) : ∃ c, Context.initial.Chain
      (Function.ReadIn (Grammar.sizeNames (scan source))) p.functions c ∧ c.vars = p.vars := by
  obtain ⟨r, r', hcontext, hvars, hchain⟩ := of_ensures hp Grammar.functions_ensures
  exact ⟨r'.context, hcontext ▸ hchain, hvars⟩

end LoopNest
