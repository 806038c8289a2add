import LoopNest.Proofs.Grammar.ConsumesStmt
import LoopNest.Proofs.Grammar.Naming

/-!
# Declared variables and the table

Every variable that a program declares has an entry of its own in the table, with the place of the
name that declares it. The other entries are of variables that nothing declares.

* `Parse.Places`: the variables of the result of a step are declared by the tokens that name them.
* `Parse.Places.after`, `Parse.Places.keep`: two steps, one after the other.
* `Grammar.declarator_placed`, `Grammar.parameters_placed`: so it is for all declarations that are
  read.
* `Grammar.statement_declares`, `Grammar.functions_all`: what holds of all declarations, and of all
  functions, holds of those of a program.
* `Context.Run.implicitInt`: a variable that nothing declares is an `int`.
* `Program.read_coherent`: references, declarations and the table of a program fit together.
-/

namespace LoopNest

namespace Grammar

open Parse

variable {items : List Item} (r : Reader)

/-! ## Types -/

/-- A token of a type: a keyword or a star. -/
def IsTypeToken (t : Token) : Prop :=
  (∃ base, t.kind = .keyword (.type base)) ∨ t.kind = .symbol .star

theorem IsTypeToken.isPlain {t : Token} (h : IsTypeToken t) : IsPlain t := by
  rcases h with ⟨base, h⟩ | h <;> simp [IsPlain, h]

theorem DerivesType.isTypeToken {ts : List Token} {type : VarType} (h : DerivesType ts type) :
    ∀ t ∈ ts, IsTypeToken t := by
  obtain ⟨ht, -, hlong, -, hstars⟩ := h
  refine List.forall_mem_cons.mpr ⟨.inl ⟨_, ht⟩, List.forall_mem_append.mpr ⟨fun t ht => ?_, ?_⟩⟩
  · exact .inl (Or.elim (hlong t ht) (fun h => ⟨_, h⟩) fun h => ⟨_, h⟩)
  · exact fun t ht => .inr (hstars t ht)

/-- The name that is taken is that of the current token. -/
theorem name_ensures (named : Named) : (Parse.name named).Ensures items r fun n r' =>
    r'.previous = r.current ∧ r.current.kind = .identifier ∧ n = r.current.lexeme := by
  refine .get ?_
  split
  · next hsees =>
    refine (Ensures.advance r).bind fun _ r₁ => .pure fun _ _ _ _ h => ?_
    exact ⟨h.1, eq_of_beq hsees, rfl⟩
  · exact .fail _

end Grammar

/-! ## Steps that place declarations -/

namespace Parse

variable {α β : Type}

/-- A run without problems yields a result that has the property in the table behind the run. -/
def Places (items : List Item) (step : Parse α) (r : Reader) (P : α → VarTable → Prop) : Prop :=
  step.Ensures items r fun a r' => P a r'.vars

namespace Places

variable {items : List Item} {r : Reader} {step : Parse α} {next : α → Parse β}
  {P : α → VarTable → Prop} {R : β → VarTable → Prop}

theorem pure {a : α} (h : P a r.vars) : Places items (Pure.pure a) r P :=
  Ensures.pure fun _ => h

theorem get {next : Reader → Parse α} (h : (next r).Places items r P) :
    (MonadStateOf.get >>= next).Places items r P := h

/-- The first step does not matter. -/
theorem after {Q : α → Reader → Prop} (h : step.Ensures items r Q)
    (hnext : ∀ a r₁, (next a).Places items r₁ R) : (step >>= next).Places items r R :=
  h.bind fun a r₁ => (hnext a r₁).mono fun _ _ _ _ _ hr _ _ _ _ => hr

/-- What the result of the first step has in the table, it has in the table behind both. -/
theorem keep (h : step.Places items r P) (hP : VarTable.Lasting P)
    (hnext : ∀ a r₁, (next a).Places items r₁ fun b vars => P a vars → R b vars) :
    (step >>= next).Places items r R :=
  h.bind fun a r₁ => (hnext a r₁).mono fun _ _ _ _ hleads hr _ _ _ hp =>
    hr (hP hleads.vars a hp)

theorem many {item : Parse (Option α)} (hP : VarTable.Lasting P)
    (h : ∀ r, item.Ensures items r fun o r' => o.elim (r' = r) fun a => P a r'.vars) :
    (Parse.many item).Places items r fun as vars => ∀ a ∈ as, P a vars := by
  refine Ensures.many (S := fun _ a r' => P a r'.vars) (I := fun _ as r' => ∀ a ∈ as, P a r'.vars) h
    (fun _ => by simp) ?_ r
  intro _ a _ as _ hleads ha has
  exact List.forall_mem_cons.mpr ⟨hP hleads.vars a ha, has⟩

theorem separated {item : Parse α} (h : ∀ r, item.Places items r P) (r : Reader) :
    (Parse.separated item).Ensures items r fun o r' => o.elim (r' = r) fun a => P a r'.vars := by
  refine (Ensures.acceptKind _ r).bind fun accepted r₁ => ?_
  cases accepted with
  | false => exact .pure fun _ _ _ _ hclosed => hclosed.2.1
  | true => exact (h r₁).bind fun a r₂ => .pure fun _ _ _ _ ha _ _ _ _ => ha

theorem commaSeparated {item : Parse α} (hP : VarTable.Lasting P)
    (h : ∀ r, item.Places items r P) :
    (Parse.commaSeparated item).Places items r fun as vars => ∀ a ∈ as, P a vars := by
  exact (h r).keep hP fun a r₁ => (many hP (separated h)).bind fun as r₂ =>
    .pure fun _ _ _ _ has ha => List.forall_mem_cons.mpr ⟨ha, has⟩

/-- Items that are recovered from, unless there is none left. -/
theorem manyItems (stop : Reader → Bool) {recover : Reader → Reader → Reader}
    (hP : VarTable.Lasting P) (h : ∀ r, step.Places items r P)
    (hrecover : ∀ r s, (recover r s).problems = s.problems) :
    (Parse.many (Parse.itemUnless stop fun r => Parse.recovering step (recover r))).Places items r
      fun found vars => ∀ a ∈ found.filterMap id, P a vars := by
  refine Ensures.manyItems (S := fun _ a r' => P a r'.vars)
    (I := fun _ as r' => ∀ a ∈ as, P a r'.vars) stop h hrecover (fun _ => by simp) ?_ r
  intro _ a _ as _ hleads ha has
  exact List.forall_mem_cons.mpr ⟨hP hleads.vars a ha, has⟩

theorem inScope (h : ∀ r, step.Places items r P) : (Parse.inScope step).Places items r P := by
  refine (Ensures.inScope (P := fun _ a r' => P a r'.vars) h r).mono fun a r' _ _ _ hrun => ?_
  obtain ⟨_, r₂, hp, -, -, -, hpop, -, -⟩ := hrun
  have hvars : r'.vars = r₂.vars := congrArg Context.vars hpop
  rw [hvars]
  exact hp

end Places

end Parse

namespace Grammar

open Parse

variable {items : List Item} (r : Reader)

/-! ## Declarators -/

theorem declarator_placed (type : VarType) :
    (declarator type).Places items r (Declarator.Placed items) := by
  unfold declarator
  refine (currentSpan_ensures r).bind fun start r₁ => ?_
  refine ((stars_ensures r₁).consumes (stars_consumes r₁)).bind fun depth r₂ => ?_
  refine (currentSpan_ensures r₂).bind fun span r₃ => ?_
  refine ((name_ensures r₃ _).consumes (Consumes.name _ r₃)).bind fun name r₄ => ?_
  refine (arrayBrackets_ensures r₄).bind fun n r₅ => (initializer_ensures r₅).bind fun x r₆ => ?_
  refine (Ensures.declare _ _ _ r₆).bind fun v r₇ => ?_
  refine (spanFrom_ensures r₇ start).bind fun span r₈ => .pure ?_
  intro _ _ _ _ hend _ _ hleads₇ hv _ _ hleads₆ _ _ _ hleads₅ _ _ hsound₄ hleads₄ hname
    _ hsound₃ _ hspan _ hsound₂ hleads₂ hstars hsound _ _ hstart
  obtain ⟨rfl, rfl⟩ := hend
  obtain ⟨rfl, rfl⟩ := hspan
  obtain ⟨rfl, rfl⟩ := hstart
  obtain ⟨⟨hprevious, hkind, rfl⟩, _, hremaining, rfl⟩ := hname
  obtain ⟨-, stars, hstars, -, hall⟩ := hstars
  -- the declarator starts where the reader was, and what it starts with is stars and the name
  have hle : r₁.current.span.start.offset ≤ r₈.previous.span.start.offset := by
    have hbehind := (hleads₅.trans (hleads₆.trans hleads₇)).previous_le
    rw [hprevious] at hbehind
    exact Nat.le_trans hleads₂.current_le hbehind
  have hmerge := Span.merge_start hsound.current_proper.line_pos hle
  have htokens := hsound.tokensFrom_append hsound₂ hstars
  rw [hsound₂.tokensFrom_append hsound₄ hremaining] at htokens
  have hdrop : ∀ t ∈ stars, (t.kind == .symbol .star) = true :=
    fun t ht => beq_iff_eq.mpr (hall t ht)
  refine ⟨r₃.current, ?_, hkind, hv.1.symm, _, hv.1 ▸ hv.2.2.2⟩
  unfold Declarator.nameToken?
  dsimp only
  rw [hmerge, htokens, List.dropWhile_append_of_pos hdrop, List.singleton_append,
    List.dropWhile_cons_of_neg (by simp [hkind])]
  rfl

theorem declaration_placed : declaration.Places items r fun ds vars =>
    ∀ d ∈ ds, d.Placed items vars := by
  have hds (type : VarType) (r : Reader) : (commaSeparated (declarator type)).Places items r
      fun ds vars => ∀ d ∈ ds, d.Placed items vars :=
    .commaSeparated Declarator.placed_lasting fun r => declarator_placed r type
  refine .after (typeName_ensures r) fun type r₁ => ?_
  refine (hds type r₁).keep Declarator.placed_lasting.all fun ds r₂ => ?_
  exact .after (Ensures.expect _ _ r₂) fun _ r₃ => .pure id

/-! ## Statements

What holds of all declarations that are read holds of the declarations in statements. -/

section

variable {D : List Declarator → VarTable → Prop}

theorem clause_declares (stops : List Symbol) : (clause stops).Places items r (Stmt.AllDeclare D) :=
  (clause_ensures r stops).mono fun _ _ _ _ _ hs => Stmt.allDeclare_of_isClause hs.1

variable (hD : VarTable.Lasting D) (hdeclaration : ∀ r, declaration.Places items r D)
include hD hdeclaration

theorem initClause_declares : initClause.Places items r (Stmt.AllDeclare D) := by
  unfold initClause
  refine .after (currentSpan_ensures r) fun start r₁ => ?_
  refine .after (Ensures.acceptKind _ r₁) fun accepted r₂ => ?_
  cases accepted with
  | true => exact .pure (Stmt.allDeclare_of_plain rfl rfl)
  | false =>
    refine .get ?_
    split
    · refine (hdeclaration r₂).keep hD fun ds r₃ => ?_
      refine .after (spanFrom_ensures r₃ start) fun _ r₄ => .pure fun hds => ?_
      exact Stmt.allDeclare_declaration _ hds
    · refine .after (expression_ensures r₂) fun x r₃ => ?_
      exact .after (Ensures.expect _ _ r₃) fun _ r₄ => .pure (Stmt.allDeclare_of_plain rfl rfl)

section

variable {statement : Parse Stmt} (h : ∀ r, statement.Places items r (Stmt.AllDeclare D))
include h

theorem forRest_declares : (forRest statement).Places items r fun p vars =>
    ∀ s ∈ [p.2.init, p.2.check, p.2.update, p.2.body], s.AllDeclare D vars := by
  have hS := Stmt.allDeclare_lasting hD
  unfold forRest
  refine (initClause_declares r hD hdeclaration).keep hS fun init r₁ => ?_
  refine (clause_declares r₁ _).keep hS fun check r₂ => ?_
  refine .after (Ensures.expect _ _ r₂) fun _ r₃ => ?_
  refine (clause_declares r₃ _).keep hS fun update r₄ => ?_
  refine .after (headerAttributes_ensures r₄) fun marks r₅ => ?_
  refine .after (Ensures.expect _ _ r₅) fun _ r₆ => ?_
  refine (h r₆).keep hS fun body r₇ => .pure fun hbody hupdate hcheck hinit => ?_
  simpa using ⟨hinit, hcheck, hupdate, hbody⟩

theorem forStatement_declares (marks : List Attribute) :
    (forStatement statement marks).Places items r (Stmt.AllDeclare D) := by
  have hS := Stmt.allDeclare_lasting hD
  have hrest (r : Reader) := forRest_declares r hD hdeclaration h
  unfold forStatement
  refine .after (currentSpan_ensures r) fun start r₁ => .after (Ensures.advance r₁) fun _ r₂ => ?_
  refine .after (Ensures.expect _ _ r₂) fun _ r₃ => ?_
  refine (Places.inScope hrest).keep (fun t u hext p hp => hS.all hext _ hp)
    fun p r₄ => ?_
  refine .after (spanFrom_ensures r₄ start) fun _ r₅ => .pure fun hp => ?_
  exact Stmt.allDeclare_of_parts (by simp [Stmt.declarators?]) hp

omit hdeclaration in
theorem block_declares : (block statement).Places items r fun b vars =>
    ∀ s ∈ b.statements, s.AllDeclare D vars := by
  have hS := Stmt.allDeclare_lasting hD
  have hitems (r : Reader) := Places.manyItems (r := r) endsBlock hS h fun r =>
    problems_recoverStatement r.current.span
  unfold block
  rw [blockItem_eq]
  refine .after (currentSpan_ensures r) fun start r₁ => ?_
  refine .after (Ensures.expect _ _ r₁) fun _ r₂ => ?_
  refine (Places.inScope hitems).keep (fun t u hext _ hs => hS.all hext _ hs) fun found r₃ => ?_
  refine .after (Ensures.expect _ _ r₃) fun _ r₄ => ?_
  exact .after (spanFrom_ensures r₄ start) fun _ r₅ => .pure id

theorem statementRest_declares (marks : List Attribute) :
    (statementRest statement marks).Places items r (Stmt.AllDeclare D) := by
  have hS := Stmt.allDeclare_lasting hD
  have hhead (start : Span) (r : Reader) :
      (do return (⟨← spanFrom start, marks⟩ : StmtHead) : Parse StmtHead).Ensures items r
        fun _ _ => True :=
    (spanFrom_ensures r start).bind fun _ _ => .pure fun _ _ _ _ _ => trivial
  unfold statementRest
  refine .after (currentSpan_ensures r) fun start r₁ => .get ?_
  split
  · exact forStatement_declares r₁ hD hdeclaration h marks
  · refine (block_declares r₁ hD h).keep (fun t u hext b hb => hS.all hext _ hb)
      fun b r₂ => .after (hhead start r₂) fun _ r₃ => .pure fun hb => ?_
    exact Stmt.allDeclare_of_parts (by simp [Stmt.declarators?]) hb
  · refine .after (condition_ensures r₁ _) fun x r₂ => ?_
    refine (h r₂).keep hS fun t r₃ => ?_
    refine .after (Ensures.acceptKind _ r₃) fun accepted r₄ => ?_
    cases accepted with
    | true =>
      refine (h r₄).keep hS fun e r₅ => ?_
      refine .after (hhead start r₅) fun _ r₆ => .pure fun he ht => ?_
      exact Stmt.allDeclare_of_parts (by simp [Stmt.declarators?])
        (by simpa [Stmt.children] using ⟨ht, he⟩)
    | false =>
      refine .after (hhead start r₄) fun _ r₅ => .pure fun ht => ?_
      exact Stmt.allDeclare_of_parts (by simp [Stmt.declarators?]) (by simpa [Stmt.children] using ht)
  · refine .after (condition_ensures r₁ _) fun x r₂ => ?_
    refine (h r₂).keep hS fun b r₃ => ?_
    refine .after (hhead start r₃) fun _ r₄ => .pure fun hb => ?_
    exact Stmt.allDeclare_of_parts (by simp [Stmt.declarators?]) (by simpa [Stmt.children] using hb)
  · refine .after (Ensures.advance r₁) fun _ r₂ => .after (optionalValue_ensures r₂) fun v r₃ => ?_
    refine .after (Ensures.expect _ _ r₃) fun _ r₄ => .after (hhead start r₄) fun _ r₅ => .pure ?_
    exact Stmt.allDeclare_of_plain rfl rfl
  · refine .after (Ensures.advance r₁) fun _ r₂ => .after (hhead start r₂) fun _ r₃ => .pure ?_
    exact Stmt.allDeclare_of_plain rfl rfl
  · refine (hdeclaration r₁).keep hD fun ds r₂ => ?_
    refine .after (hhead start r₂) fun _ r₃ => .pure fun hds => ?_
    exact Stmt.allDeclare_declaration _ hds
  · refine .after (expression_ensures r₁) fun x r₂ => .after (Ensures.expect _ _ r₂) fun _ r₃ => ?_
    refine .after (hhead start r₃) fun _ r₄ => .pure ?_
    exact Stmt.allDeclare_of_plain rfl rfl

end

theorem statement_declares : statement.Places items r (Stmt.AllDeclare D) := by
  have hrounds (rounds : List Item) (r : Reader) :
      (statementFor rounds).Places items r (Stmt.AllDeclare D) := by
    induction rounds generalizing r with
    | nil => exact Ensures.fail _
    | cons _ rounds ih =>
      exact .after (attributes_ensures r) fun marks r₁ =>
        statementRest_declares r₁ hD hdeclaration ih marks
  exact .get (hrounds r.remaining r)

theorem functionRest_declares : functionRest.Places items r fun p vars =>
    ∀ s ∈ p.2.statements, s.AllDeclare D vars := by
  have hS := (Stmt.allDeclare_lasting hD).all
  have hstatement (r : Reader) := statement_declares r hD hdeclaration
  refine .after (Ensures.expect _ _ r) fun _ r₁ => .after (parameters_ensures r₁) fun vs r₂ => ?_
  refine .after (Ensures.expect _ _ r₂) fun _ r₃ => ?_
  exact (block_declares r₃ hD hstatement).keep (fun t u hext b hb => hS hext _ hb)
    fun b r₄ => .pure id

theorem function_declares : function.Places items r fun f vars =>
    ∀ s ∈ f.body.statements, s.AllDeclare D vars := by
  have hS := (Stmt.allDeclare_lasting hD).all
  have hrest (r : Reader) := functionRest_declares r hD hdeclaration
  refine .after (attributes_ensures r) fun marks r₁ => ?_
  refine .after (currentSpan_ensures r₁) fun start r₂ => ?_
  refine .after (typeName_ensures r₂) fun type r₃ => .after (name_ensures r₃ _) fun name r₄ => ?_
  refine (Places.inScope hrest).keep (fun t u hext p hp => hS hext _ hp) fun p r₅ => ?_
  exact .after (spanFrom_ensures r₅ start) fun _ r₆ => .pure id

end

/-! ## Parameters -/

/-- The identifiers that lie ahead in a list of parameters. -/
def namesAhead (items : List Item) (r : Reader) : List Token :=
  namesOutside 0 (tokensFrom items r.current.span.start)

theorem namesAhead_of_plain {r r' : Reader} {ts : List Token} (h : r.Sound items)
    (h' : r'.Sound items) (hremaining : r.remaining = ts.map .token ++ r'.remaining)
    (hts : ∀ t ∈ ts, IsPlain t) : namesAhead items r = namesAhead items r' := by
  rw [namesAhead, h.tokensFrom_append h' hremaining, namesOutside_plain hts]
  rfl

theorem namesAhead_of_bracketed {r r' : Reader} (h : r.Sound items) (h' : r'.Sound items)
    (hbrackets : Bracketed r r') : namesAhead items r = namesAhead items r' := by
  obtain ⟨_, ts, nss, _, hremaining, hrows, _, hstop⟩ := hbrackets
  obtain ⟨us, hus⟩ := h'.tokensFrom_cons
  rw [namesAhead, h.tokensFrom_append h' hremaining, namesAhead, hus,
    namesOutside_sizes hrows hstop]

/-- A parameter takes its name from the identifiers ahead. -/
theorem parameter_placed (type : VarType) : (parameter type).Ensures items r fun v r' =>
    ∃ t, namesAhead items r = t :: namesAhead items r' ∧ r'.vars.DeclaredBy v t := by
  unfold parameter
  refine ((stars_ensures r).consumes (stars_consumes r)).bind fun depth r₁ => ?_
  refine (currentSpan_ensures r₁).bind fun span r₂ => ?_
  refine ((name_ensures r₂ _).consumes (Consumes.name _ r₂)).bind fun name r₃ => ?_
  refine (parameterBrackets_ensures r₃).bind fun n r₄ => ?_
  refine (Ensures.declare _ _ _ r₄).mono fun v r₅ _ _ _ hv => ?_
  intro hsound₃ hsound₄ _ hbrackets hsound₂ _ _ hname _ _ _ hspan hsound _ _ hstars
  obtain ⟨rfl, rfl⟩ := hspan
  obtain ⟨⟨-, hkind, rfl⟩, _, hremaining, rfl⟩ := hname
  obtain ⟨-, stars, hstars, -, hall⟩ := hstars
  obtain ⟨hn, -, hcurrent, hentry⟩ := hv
  refine ⟨r₂.current, ?_, hkind, hn.symm, _, hn ▸ hentry⟩
  have hplain : ∀ t ∈ stars, IsPlain t := fun t ht => IsTypeToken.isPlain (.inr (hall t ht))
  have hbehind : namesAhead items r₅ = namesAhead items r₄ := by
    rw [namesAhead, hcurrent, namesAhead]
  rw [namesAhead_of_plain hsound hsound₂ hstars hplain, namesAhead,
    hsound₂.tokensFrom_append hsound₃ hremaining, List.singleton_append, namesOutside_name hkind,
    hbehind, ← namesAhead_of_bracketed hsound₃ hsound₄ hbrackets]
  rfl

/-- There are no names in a type. -/
theorem typeName_passes : typeName.Ensures items r fun _ r' =>
    r.Sound items → namesAhead items r = namesAhead items r' := by
  refine ((typeName_ensures r).consumes (typeName_consumes r)).mono ?_
  rintro _ r' hsound hsound' _ ⟨-, ts, hremaining, hts⟩ _
  exact namesAhead_of_plain hsound hsound' hremaining fun t ht => (hts.isTypeToken t ht).isPlain

theorem parameterItem_placed : parameterItem.Ensures items r fun o r' => o.elim (r' = r) fun v =>
    ∃ t, namesAhead items r = t :: namesAhead items r' ∧ r'.vars.DeclaredBy v t := by
  refine ((Ensures.acceptKind _ r).consumes (Consumes.acceptKind (by simp) r)).bind
    fun accepted r₁ => ?_
  cases accepted with
  | false => exact .pure fun _ _ _ _ h => h.1.2.1
  | true =>
    refine (typeName_passes r₁).bind fun type r₂ => ?_
    refine (parameter_placed r₂ type).bind fun v r₃ => .pure ?_
    intro _ _ _ _ hv hsound₁ _ _ hnames hsound _ _ hcomma
    obtain ⟨-, _, hremaining, u, rfl, hu⟩ := hcomma
    have hplain : ∀ t ∈ [u], IsPlain t := by simp [IsPlain, hu]
    rw [← hnames hsound₁] at hv
    rwa [namesAhead_of_plain hsound hsound₁ hremaining hplain]

/-- The variables are declared by the identifiers ahead, one after the other. -/
def DeclaredAhead (items : List Item) (r : Reader) (vs : List VarRef) (r' : Reader) : Prop :=
  ∃ ns, namesAhead items r = ns ++ namesAhead items r' ∧ List.Forall₂ r'.vars.DeclaredBy vs ns

theorem DeclaredAhead.cons {r r₁ r₂ : Reader} {v : VarRef} {vs : List VarRef} (hleads : r₁.Leads r₂)
    (hv : ∃ t, namesAhead items r = t :: namesAhead items r₁ ∧ r₁.vars.DeclaredBy v t)
    (hvs : DeclaredAhead items r₁ vs r₂) : DeclaredAhead items r (v :: vs) r₂ := by
  obtain ⟨t, hfirst, hv⟩ := hv
  obtain ⟨ns, hrest, hvs⟩ := hvs
  refine ⟨t :: ns, ?_, .cons (hv.mono hleads.vars) hvs⟩
  rw [hfirst, hrest, List.cons_append]

theorem parameters_placed : parameters.Ensures items r fun vs r' => DeclaredAhead items r vs r' := by
  have hmany := Ensures.many (I := DeclaredAhead items) parameterItem_placed
    (fun r => ⟨[], rfl, .nil⟩) .cons
  rw [parameters_eq]
  refine .get ?_
  split
  · exact .pure fun _ => ⟨[], rfl, .nil⟩
  · refine (typeName_passes r).bind fun type r₁ => .get ?_
    split
    · exact .pure fun _ hsound _ _ hnames => ⟨[], hnames hsound, .nil⟩
    · refine (parameter_placed r₁ type).bind fun v r₂ => (hmany r₂).bind fun vs r₃ => .pure ?_
      intro _ _ _ hleads hvs _ _ _ hv hsound _ _ hnames
      exact .cons hleads (hnames hsound ▸ hv) hvs

/-! ## Functions -/

theorem functionRest_placed : functionRest.Ensures items r fun p r' => ∃ t us,
    tokensFrom items r.current.span.start = t :: us ∧ t.kind = .symbol .leftParen ∧
      List.Forall₂ r'.vars.DeclaredBy p.1 (namesOutside 0 us) ∧
      ∀ s ∈ p.2.statements, s.Placed items r'.vars := by
  unfold functionRest
  refine ((Ensures.expect _ _ r).consumes (Consumes.expect _ _ r)).bind fun _ r₁ => ?_
  refine (parameters_placed r₁).bind fun vs r₂ => ?_
  refine ((Ensures.expect _ _ r₂).consumes (Consumes.expect _ _ r₂)).bind fun _ r₃ => ?_
  have hstatement (r : Reader) : statement.Places items r
      (Stmt.AllDeclare fun ds vars => ∀ d ∈ ds, d.Placed items vars) :=
    statement_declares r Declarator.placed_lasting.all declaration_placed
  refine Ensures.bind (block_declares r₃ Declarator.placed_lasting.all hstatement)
    fun b r₄ => .pure ?_
  intro _ _ _ hleads₄ hb hsound₂ hsound₃ hleads₃ hclose _ _ _ hvs hsound hsound₁ _ hopen
  obtain ⟨-, _, hopen, t, rfl, ht⟩ := hopen
  obtain ⟨-, _, hclose, u, rfl, hu⟩ := hclose
  obtain ⟨ns, hnames, hvs⟩ := hvs
  have hnil : namesAhead items r₂ = [] := by
    rw [namesAhead, hsound₂.tokensFrom_append hsound₃ hclose]
    exact namesOutside_close hu
  rw [hnil, List.append_nil] at hnames
  refine ⟨t, _, hsound.tokensFrom_append hsound₁ hopen, ht, ?_,
    fun s hs => Stmt.placed_of_allDeclare (hb s hs)⟩
  have hall : List.Forall₂ r₂.vars.DeclaredBy vs (namesAhead items r₁) := hnames ▸ hvs
  exact hall.imp fun _ _ h => h.mono (hleads₃.trans hleads₄).vars

theorem function_placed : function.Places items r (Function.Placed items) := by
  unfold function
  refine .after (attributes_ensures r) fun marks r₁ => ?_
  refine (currentSpan_ensures r₁).bind fun start r₂ => ?_
  refine ((typeName_ensures r₂).consumes (typeName_consumes r₂)).bind fun type r₃ => ?_
  refine ((name_ensures r₃ _).consumes (Consumes.name _ r₃)).bind fun name r₄ => ?_
  refine (Ensures.inScope functionRest_placed r₄).bind fun p r₅ => ?_
  refine (spanFrom_ensures r₅ start).bind fun span r₆ => .pure ?_
  intro _ _ _ _ hend _ _ hleads₅ hrest hsound₃ hsound₄ hleads₄ hname hsound₂ _ hleads₃ htype
    hsound _ _ hstart
  obtain ⟨rfl, rfl⟩ := hend
  obtain ⟨rfl, rfl⟩ := hstart
  obtain ⟨-, types, htypes, hderives⟩ := htype
  have hall := hderives.isTypeToken
  obtain ⟨⟨hprevious, hkind, rfl⟩, _, hremaining, rfl⟩ := hname
  obtain ⟨r₇, r₈, ⟨t, us, htokens, ht, hparams, hbody⟩, -, hcurrent, -, hpop, -, -⟩ := hrest
  have hvars : r₆.vars = r₈.vars := congrArg Context.vars hpop
  rw [← hvars] at hparams hbody
  -- what stands between the start of the function and the parenthesis is a type and a name
  have hle : r₂.current.span.start.offset ≤ r₆.previous.span.start.offset := by
    have hbehind := hleads₅.previous_le
    rw [hprevious] at hbehind
    exact Nat.le_trans hleads₃.current_le hbehind
  have hmerge := Span.merge_start hsound₂.current_proper.line_pos hle
  rw [hcurrent] at htokens
  have hahead := hsound₂.tokensFrom_append hsound₃ htypes
  rw [hsound₃.tokensFrom_append hsound₄ hremaining, htokens, ← List.append_assoc] at hahead
  have hdrop : ∀ t ∈ types ++ [r₃.current], (t.kind != .symbol .leftParen) = true := by
    refine List.forall_mem_append.mpr ⟨fun t ht => ?_, by simp [hkind]⟩
    rcases hall t ht with ⟨base, h⟩ | h <;> simp [h]
  have hnames : namesOutside 0 us = Function.parameterNames items
      ⟨r₃.current.lexeme, type, p.1, p.2, marks, r₂.current.span.merge r₆.previous.span⟩ := by
    unfold Function.parameterNames
    rw [hmerge, hahead, List.dropWhile_append_of_pos hdrop,
      List.dropWhile_cons_of_neg (by simp [ht])]
    rfl
  exact ⟨hnames ▸ hparams, hbody⟩

/-- What holds of all functions that are read holds of those of a program. -/
theorem functions_all {P : Function → VarTable → Prop} (hP : VarTable.Lasting P)
    (h : ∀ r, function.Places items r P) : functions.Places items r fun fs vars =>
      ∀ f ∈ fs, P f vars := by
  have hitems := Places.manyItems (r := r) Reader.atEnd hP h fun _ => problems_recoverFunction
  exact hitems.keep (fun t u hext _ hf => hP.all hext _ hf) fun found r₁ => .pure id

end Grammar

/-! ## Variables that nothing declares -/

/-- The variables that nothing declares are `int`s. -/
def VarTable.ImplicitInt (t : VarTable) : Prop :=
  ∀ id x, t.get? id = some x → x.implicit = true → x.type = .int

theorem VarTable.ImplicitInt.add {t : VarTable} (h : t.ImplicitInt) {x : Variable}
    (hx : x.implicit = true → x.type = .int) : (t.add x).2.ImplicitInt := by
  intro id y hy himplicit
  rcases Nat.lt_or_ge id t.size with hlt | hge
  · exact h id y ((get?_add_of_lt x hlt).symm.trans hy) himplicit
  · obtain ⟨-, rfl⟩ := eq_of_get?_add hy hge
    exact hx himplicit

theorem Context.Run.implicitInt {c c' : Context} {us ds : List VarRef} (h : Run c us ds c') :
    c.vars.ImplicitInt → c'.vars.ImplicitInt := by
  induction h with
  | nil c => exact id
  | used h =>
    rcases resolves_cases h with ⟨_, rfl⟩ | ⟨_, _, _, rfl⟩
    · exact id
    · exact fun hc => hc.add fun _ => rfl
  | declared h =>
    obtain ⟨_, _, _, rfl⟩ := declares_cases h
    exact fun hc => hc.add fun himplicit => by cases himplicit
  | append _ _ ih ih' => exact fun hc => ih' (ih hc)
  | scope _ ih => exact ih

/-! ## Programs -/

/-- What holds of all functions that are read, in the table behind them, holds of those of a program
in its table. -/
theorem Program.forall_of_read {source : String} {p : Program} (hp : Program.read source = .ok p)
    {P : Function → VarTable → Prop} (hP : VarTable.Lasting P)
    (h : ∀ r, Grammar.function.Places (scan source) r P) : ∀ f ∈ p.functions, P f p.vars := by
  obtain ⟨_, r', -, hvars, hfs⟩ := of_ensures hp fun r => Grammar.functions_all r hP h
  exact hvars ▸ hfs

/-- The variables of a program are declared by the tokens of its source that name them. -/
theorem Program.placed_of_read {source : String} {p : Program} (hp : Program.read source = .ok p) :
    ∀ f ∈ p.functions, f.Placed (scan source) p.vars :=
  forall_of_read hp Function.placed_lasting Grammar.function_placed

/-- The references of a program, its declarations and its table of variables fit together. -/
structure Program.Coherent (items : List Item) (p : Program) : Prop where
  /-- 32 bits are enough for the number of a variable. -/
  number : ∀ f ∈ p.functions, ∀ v ∈ f.refs, (UInt32.ofNat v.id).toNat = v.id
  /-- A reference is to an entry of its name. -/
  entry : ∀ f ∈ p.functions, ∀ v ∈ f.refs,
    v.id < p.vars.size ∧ (p.vars.get? v.id).map Variable.name = some v.name
  /-- Every parameter and every declarator declares a variable of its own. -/
  apart : (p.functions.flatMap Function.declared).Pairwise fun v w => v.id ≠ w.id
  /-- The entries of parameters have the places of the names in their lists. -/
  params : ∀ f ∈ p.functions, List.Forall₂ p.vars.DeclaredBy f.params (f.parameterNames items)
  /-- The entries of declarators have the places of the names in them. -/
  declarators : ∀ f ∈ p.functions, ∀ s ∈ f.body.statements, ∀ d ∈ s.declarators,
    ∃ t, d.nameToken? items = some t ∧ p.vars.DeclaredBy d.var t
  implicit : ∀ id x, p.vars.get? id = some x → x.implicit = true → x.type = .int

/-- **References are well formed.** In a program with fewer variables than 32 bits can number, every
reference, in attributes too, is to an entry of the table with its name. Parameters and declarators
have entries of their own, which are not implicit and have the place of the declared name; an
implicit entry is an `int`. -/
theorem Program.read_coherent {source : String} {p : Program} (hp : Program.read source = .ok p)
    (hsize : p.vars.size < UInt32.size) : p.Coherent (scan source) := by
  obtain ⟨c, hchain, hvars⟩ := readIn_of_read hp
  have hname := Function.name?_of_separate (Function.separate_of_chain hchain .initial rfl)
  obtain ⟨us, hrun⟩ := Function.run_of_chain hchain
  have hplaced := placed_of_read hp
  have hinitial : Context.initial.vars.ImplicitInt := fun id x hx => by
    rw [Context.initial, VarTable.get?] at hx
    simp at hx
  rw [hvars] at hname
  have hentry : ∀ f ∈ p.functions, ∀ v ∈ f.refs, v.id < p.vars.size := fun f hf v hv =>
    VarTable.lt_size_of_name? (hname f hf v hv)
  refine ⟨fun f hf v hv => ?_, fun f hf v hv => ⟨hentry f hf v hv, hname f hf v hv⟩, ?_,
    fun f hf => (hplaced f hf).params, fun f hf => (hplaced f hf).body, ?_⟩
  · exact UInt32.toNat_ofNat_of_lt (Nat.lt_trans (hentry f hf v hv) hsize)
  · exact hrun.pairwise_declared.imp fun h => Nat.ne_of_lt h
  · exact hvars ▸ hrun.implicitInt hinitial

/-- Parameters with stars and sizes, several declarators in one declaration, a shadowed name, and
names that nothing declares, one of them in an attribute. -/
theorem Program.read_coherent_shadowed :
    ∃ p, Program.read "@tile(N) void f(int n, float **a[n][]) { int i = M, *x[2], y; { int i; } }
        void g(void) { i; }" = .ok p ∧ p.vars.size = 9 ∧ p.vars.size < UInt32.size ∧
      p.Coherent (scan "@tile(N) void f(int n, float **a[n][]) { int i = M, *x[2], y; { int i; } }
        void g(void) { i; }") := by
  refine (exists_of_read (P := fun p => p.vars.size == 9) ?_).imp fun p h => ⟨h.1, ?_⟩
  · decide +kernel
  · have hsize : p.vars.size = 9 := beq_iff_eq.mp h.2
    have hlt : p.vars.size < UInt32.size := by
      rw [hsize]
      decide
    exact ⟨hsize, hlt, read_coherent h.1 hlt⟩

end LoopNest
