import LoopNest.Proofs.Grammar.AcceptProgram
import LoopNest.Proofs.Grammar.AlongDecl
import LoopNest.Proofs.Grammar.NoErrorLost

/-!
# Statements and functions that are read alongside

Two texts with the same words up to where they part have the same statements and functions there. In
a program they may part in front of loops only, where attributes stand in one of them. What is read
over such a place is a matter of the texts (`Fork.Joins`).

* `Fork.AtLoops`: the texts part in front of loops, and are read alongside behind them.
* `Grammar.Handling.statementRest_alongside`: statements that start with the same word.
* `Grammar.Handling.statementFor_alongside`: statements, also where the texts part.
* `Grammar.Handling.functions_alongside`: functions.
* `Program.alike_of_alongside`: programs.
-/

namespace LoopNest

/-! ## Loops and blocks with corresponding variables -/

/-- The parts of the loops are the same but for spans, with corresponding variables. -/
structure Loop.Alike (exact : Prop) (K : Pairing) (l l' : Loop) : Prop where
  init : l.init.Alike exact K l'.init
  check : l.check.Alike exact K l'.check
  update : l.update.Alike exact K l'.update
  body : l.body.Alike exact K l'.body

namespace Grammar

open Parse

/-! ## Where texts part -/

/-- Statements are read alongside in functions, and what they take are statements. -/
structure Body (exact : Prop) (F : Fork) (statement statement' : Parse Stmt) : Prop where
  alongside : ∀ {d}, 2 ≤ d → ∀ K r r',
    statement.Alongside F (.inScopes exact d) K (Stmt.Alike exact) statement' r r'
  keeps : Keeps Reader.Extends statement ∧ Keeps Reader.Extends statement'
  consumes : ∀ r, statement.Consumes r LaidStmt ∧ statement'.Consumes r LaidStmt

end Grammar

open Grammar in
/-- Where the texts part, attributes may be left in the first one. The statements behind them are
the same but for spans, with the attributes in front of them, and behind them the texts are read
alongside. -/
def Fork.Joins (exact : Prop) (F : Fork) : Prop :=
  ∀ {statement statement' : Parse Stmt}, Body exact F statement statement' → ∀ {d}, 2 ≤ d →
    ∀ {K : Pairing} {front more marks : List Attribute} {r₀ r₁ r' : Reader},
      r₀.Alongside F (.inScopes exact d) K r' → Reader.AtFork F r₀ r' →
      Attribute.Alike exact K front marks → Marks r₀ more r₁ → ∀ s s' r₂ r₂',
        Handling.strict.statementRest statement (front ++ more) r₁ = (.ok s, r₂) →
        Handling.strict.statementRest statement' marks r' = (.ok s', r₂') →
        ∃ L, K.Le L ∧ r₂.Alongside F (.inScopes exact d) L r₂' ∧ s.Alike exact L s'

/-- The texts part in front of loops, and behind the loops they are read alongside. -/
structure Fork.AtLoops (exact : Prop) (F : Fork) : Prop where
  close : F.Blind (.symbol .rightParen)
  semicolon : F.Blind (.symbol .semicolon)
  joins : F.Joins exact

namespace Grammar

open Parse

variable {exact : Prop} {F : Fork} {K : Pairing} {d : Nat} {r r' : Reader}

theorem typeName_fails (h : r.current.kind.mayPart = true) : typeName.Fails r := by
  have hnone : r.current.kind.baseType? = none := by
    rcases Token.Kind.mayPart_cases h with hkind | hkind | hkind | hkind | hkind
    all_goals
      rw [hkind]
      rfl
  refine .get ?_
  simp only [hnone]
  exact .fail _ r

theorem expect_fails {s : Symbol} (place : Place) (h : r.current.kind ≠ .symbol s) :
    (expect s place).Fails r := by
  have hsees : ¬ r.seesSymbol s = true := fun hsees => h (eq_of_beq hsees)
  refine .get ?_
  rw [if_neg hsees]
  exact .fail _ r

/-- Where the texts part, no header ends. -/
theorem close_ne (hclose : F.Blind (.symbol .rightParen)) {N : Naming} (hr : r.Alongside F N K r')
    (h : Reader.AtFork F r r') : r'.current.kind ≠ .symbol .rightParen := by
  intro hright
  have hparting := h.parting
  rw [hright, (hr.kind_iff hclose).mpr hright] at hparting
  cases hparting

variable (exact) in
/-- What is read behind attributes, if it is not read where the texts part. -/
theorem behindAttributes_alongside {N : Naming} {β β' : Type} {S : Pairing → β → β' → Prop}
    {next : List Attribute → Parse β} {next' : List Attribute → Parse β'}
    (hfails : ∀ {L r r'}, r.Alongside F N L r' → Reader.AtFork F r r' →
      ∀ marks, (next' marks).Fails r')
    (hnext : ∀ L marks marks' r r', K.Le L → Attribute.Alike exact L marks marks' →
      (next marks).Alongside F N L S (next' marks') r r') (r r' : Reader) :
    (attributes >>= next).Alongside F N K S (attributes >>= next') r r' := by
  intro hr b b' r₂ r₂' hrun hrun'
  obtain ⟨marks, r₁, hmarks, hrun⟩ := bind_eq_ok hrun
  obtain ⟨marks', r₁', hmarks', hrun'⟩ := bind_eq_ok hrun'
  obtain ⟨L, hle, hcases⟩ := attributes_alongside hr hmarks hmarks'
  rcases hcases with ⟨htwins, hr₁, -⟩ | ⟨_, _, r₀, -, -, -, hr₀, hfork⟩
  · obtain ⟨M, hle', hr₂, hb⟩ :=
      hnext L marks marks' r₁ r₁' hle (.of_twins htwins) hr₁ b b' r₂ r₂' hrun hrun'
    exact ⟨M, hle.trans hle', hr₂, hb⟩
  · exact absurd hrun' (hfails hr₀ hfork marks' b' r₂')

variable (exact) in
/-- What is read behind the attributes of a header, if the header has to end there. -/
theorem behindHeaderAttributes_alongside {N : Naming} {β β' : Type} {S : Pairing → β → β' → Prop}
    (hclose : F.Blind (.symbol .rightParen)) (hsemicolon : F.Blind (.symbol .semicolon))
    {next : List Attribute → Parse β} {next' : List Attribute → Parse β'}
    (hfails : ∀ marks r, r.current.kind ≠ .symbol .rightParen → (next' marks).Fails r)
    (hnext : ∀ L marks marks' r r', K.Le L → Attribute.Alike exact L marks marks' →
      (next marks).Alongside F N L S (next' marks') r r') (r r' : Reader) :
    (headerAttributes >>= next).Alongside F N K S (headerAttributes >>= next') r r' := by
  rw [headerAttributes, bind_assoc, bind_assoc]
  refine (Alongside.accept hsemicolon r r').bind fun L b b' r₁ r₁' hle hb => ?_
  subst hb
  cases b with
  | false => exact hnext L [] [] r₁ r₁' hle Attribute.Alike.nil
  | true =>
    refine behindAttributes_alongside exact (fun hr hfork marks => ?_)
      (fun M marks marks' r r' hle' => ?_) r₁ r₁'
    · exact hfails marks _ (close_ne hclose hr hfork)
    · exact hnext M marks marks' r r' (hle.trans hle')

namespace Handling

/-! ## Items that are recovered from -/

section

variable {α : Type} {stop : Reader → Bool} (recover : Reader → Reader → Reader)

/-- An item that is not there where reading has to stop. -/
theorem item_alongside {N : Naming} {step step' : Parse α} {Q : Pairing → α → α → Prop}
    (hstop : r.Alongside F N K r' → stop r = stop r')
    (h : step.Alongside F N K Q step' r r') :
    (itemUnless stop fun r => strict.recovering step (recover r)).Alongside F N K
      (fun L => Option.Rel (Option.Rel (Q L)))
      (itemUnless stop fun r => strict.recovering step' (recover r)) r r' := by
  refine .get fun hr => ?_
  rw [hstop hr]
  refine .ite (fun _ => .pure .none) fun _ => ?_
  have hitem : (strict.recovering step (recover r)).Alongside F N K (fun L => Option.Rel (Q L))
      (strict.recovering step' (recover r')) r r' := h.bind fun _ _ _ _ _ _ ha => .pure (.some ha)
  exact hitem.bind fun _ _ _ _ _ _ ho => .pure (.some ho)

theorem item_advances {step : Parse α} {S : List Token → α → Prop}
    (h : ∀ r, step.Consumes r S) (hne : ∀ ts a, S ts a → ts ≠ []) :
    (itemUnless stop fun r => strict.recovering step (recover r)).Advances := by
  refine .of_consumes (item_consumes stop recover h) fun ts i hi => ?_
  obtain ⟨a, -, ha⟩ := hi
  exact hne ts a ha

end

section

variable {statement statement' : Parse Stmt} (h : Body exact F statement statement')
include h

/-! ## Blocks -/

theorem blockItem_alongside (hd : 2 ≤ d) (K : Pairing) (r r' : Reader) :
    (strict.blockItem statement).Alongside F (.inScopes exact d) K
      (fun L => Option.Rel (Option.Rel (Stmt.Alike exact L))) (strict.blockItem statement')
      r r' := by
  refine item_alongside (fun r => recoverStatement r.current.span) (fun hr => ?_)
    (h.alongside hd K r r')
  have hend : r.atEnd = r'.atEnd := hr.sees_eq Fork.blind_endOfFile
  rw [hr.seesSymbol_eq (Fork.blind_of_mayPart rfl), hend]

theorem blockItem_advances : (strict.blockItem statement).Advances ∧
    (strict.blockItem statement').Advances :=
  have hne (ts : List Token) (s : Stmt) (hs : LaidStmt ts s) : ts ≠ [] := hs.derives.ne_nil
  ⟨item_advances _ (fun r => (h.consumes r).1) hne, item_advances _ (fun r => (h.consumes r).2) hne⟩

/-- Statements between braces. -/
theorem block_alongside (hd : 2 ≤ d) (r r' : Reader) :
    (strict.block statement).Alongside F (.inScopes exact d) K
      (fun L b b' => List.Forall₂ (Stmt.Alike exact L) b.statements b'.statements)
      (strict.block statement') r r' := by
  have hextends {statement : Parse Stmt} (hkeeps : Parse.Keeps Reader.Extends statement) :
      Parse.Keeps Reader.Extends (many (strict.blockItem statement)) :=
    (blockItem_keeps Reader.extends_invariant Reader.strict_extends hkeeps).many
      Reader.extends_invariant
  have hlasting := (Stmt.Alike.lasting exact).option
  obtain ⟨hadvances, hadvances'⟩ := blockItem_advances h
  refine .get fun _ => (Alongside.expect _ _ r r').bind fun L _ _ r₁ r₁' _ _ => ?_
  refine (Alongside.inScope (hextends h.keeps.1) (hextends h.keeps.2)
    (Alongside.many hadvances hadvances' hlasting (blockItem_alongside h (Nat.le_succ_of_le hd)))
    r₁ r₁').bind fun M items items' r₂ r₂' _ hitems => ?_
  refine (Alongside.expect _ _ r₂ r₂').bind fun M' _ _ _ _ hle _ => .get fun _ => .pure ?_
  exact forall₂_filterMap_id (hitems.imp fun _ _ ho => hlasting.mono hle ho)

end

/-! ## Loops -/

/-- The clauses of a header: the first one with its semicolon, and the other two with one between
them. -/
def clauses (h : Handling) : Parse (Stmt × Stmt × Stmt) := do
  let init ← h.initClause
  let check ← clause [.semicolon]
  expect .semicolon .forCondition
  let update ← clause [.rightParen, .semicolon]
  return (init, check, update)

theorem forRest_eq (h : Handling) (statement : Parse Stmt) : h.forRest statement = do
    let clauses ← h.clauses
    let marks ← headerAttributes
    expect .rightParen .forHeader
    return (marks, ⟨clauses.1, clauses.2.1, clauses.2.2, ← statement⟩) := by
  simp only [forRest, clauses, bind_assoc, pure_bind]

/-- The clauses are the same but for spans, with corresponding variables. -/
structure Clauses (exact : Prop) (K : Pairing) (p p' : Stmt × Stmt × Stmt) : Prop where
  init : p.1.Alike exact K p'.1
  check : p.2.1.Alike exact K p'.2.1
  update : p.2.2.Alike exact K p'.2.2

theorem Clauses.mono {K L : Pairing} {p p' : Stmt × Stmt × Stmt} (h : Clauses exact K p p')
    (hle : K.Le L) : Clauses exact L p p' :=
  ⟨h.init.mono hle, h.check.mono hle, h.update.mono hle⟩

theorem clauses_alongside (r r' : Reader) :
    strict.clauses.Alongside F (.inScopes exact d) K (Clauses exact) strict.clauses r r' := by
  refine (initClause_alongside r r').bind fun L₁ i i' r₁ r₁' _ hi => ?_
  refine (clause_alongside exact _ r₁ r₁').bind fun L₂ k k' r₂ r₂' hle₂ hk => ?_
  refine (Alongside.expect _ _ r₂ r₂').bind fun L₃ _ _ r₃ r₃' hle₃ _ => ?_
  refine (clause_alongside exact _ r₃ r₃').bind fun L₄ u u' _ _ hle₄ hu => .pure ?_
  exact ⟨hi.mono (hle₂.trans (hle₃.trans hle₄)), hk.mono (hle₃.trans hle₄), hu⟩

section

variable (hF : F.AtLoops exact) {statement statement' : Parse Stmt}
  (h : Body exact F statement statement')
include hF h

theorem forRest_alongside (hd : 2 ≤ d) (r r' : Reader) :
    (strict.forRest statement).Alongside F (.inScopes exact d) K
      (fun L p p' => Attribute.Alike exact L p.1 p'.1 ∧ p.2.Alike exact L p'.2)
      (strict.forRest statement') r r' := by
  rw [forRest_eq, forRest_eq]
  refine (clauses_alongside r r').bind fun L₁ p p' r₁ r₁' _ hp => ?_
  refine behindHeaderAttributes_alongside exact hF.close hF.semicolon
    (fun _ _ hne => .bind (expect_fails _ hne)) (fun L₂ marks marks' r₂ r₂' hle₂ hmarks => ?_)
    r₁ r₁'
  refine (Alongside.expect _ _ r₂ r₂').bind fun L₃ _ _ r₃ r₃' hle₃ _ => ?_
  refine (h.alongside hd L₃ r₃ r₃').bind fun L₄ b b' _ _ hle₄ hb => .pure ?_
  have hp := hp.mono (hle₂.trans (hle₃.trans hle₄))
  exact ⟨hmarks.mono (hle₃.trans hle₄), hp.init, hp.check, hp.update, hb⟩

theorem forStatement_alongside (hd : 2 ≤ d) {marks marks' : List Attribute}
    (hmarks : Attribute.Alike exact K marks marks') (hahead : Reader.Ahead F r r') :
    (strict.forStatement statement marks).Alongside F (.inScopes exact d) K (Stmt.Alike exact)
      (strict.forStatement statement' marks') r r' := by
  have hextends : Parse.Keeps Reader.Extends (strict.forRest statement) :=
    forRest_keeps Reader.extends_invariant Reader.strict_extends h.keeps.1
  have hextends' : Parse.Keeps Reader.Extends (strict.forRest statement') :=
    forRest_keeps Reader.extends_invariant Reader.strict_extends h.keeps.2
  refine .get fun _ => (Alongside.advance_of_ahead hahead).bind fun L _ _ r₁ r₁' hle _ => ?_
  refine (Alongside.expect _ _ r₁ r₁').bind fun M _ _ r₂ r₂' hle' _ => ?_
  refine (Alongside.inScope hextends hextends'
    (forRest_alongside hF h (Nat.le_succ_of_le hd)) r₂ r₂').bind fun M' p p' _ _ hle'' hp => ?_
  have hmarks := hmarks.mono (hle.trans (hle'.trans hle''))
  refine .get fun _ => .pure ?_
  exact .forLoop (hmarks.append hp.1) hp.2.init hp.2.check hp.2.update hp.2.body

/-! ## Statements -/

/-- Statements behind their attributes that start with the same word. -/
theorem statementRest_alongside (hd : 2 ≤ d) {marks marks' : List Attribute}
    (hmarks : Attribute.Alike exact K marks marks') (hahead : Reader.Ahead F r r') :
    (strict.statementRest statement marks).Alongside F (.inScopes exact d) K (Stmt.Alike exact)
      (strict.statementRest statement' marks') r r' := by
  have hkind : r.current.kind = r'.current.kind := congrArg Word.kind hahead.word_eq
  have helse : F.Blind (.keyword .elseBranch) := Fork.blind_of_mayPart rfl
  refine .get fun _ => .get fun _ => ?_
  simp only [← hkind]
  split
  · exact forStatement_alongside hF h hd hmarks hahead
  · refine (block_alongside h hd r r').bind fun L b b' _ _ hle hb => .get fun _ => .pure ?_
    exact .block (hmarks.mono hle) hb
  · next heq =>
    refine (condition_alongside _ hkind (by rw [heq]; rfl)).bind fun L₁ x x' r₁ r₁' hle₁ hx => ?_
    refine (h.alongside hd L₁ r₁ r₁').bind fun L₂ t t' r₂ r₂' hle₂ ht => ?_
    refine (Alongside.acceptKind helse rfl r₂ r₂').bind fun L₃ b b' r₃ r₃' hle₃ hb => ?_
    subst hb
    refine .ite (fun _ => ?_) fun _ => .get fun _ => .pure ?_
    · refine (h.alongside hd L₃ r₃ r₃').bind fun L₄ e e' _ _ hle₄ he => .get fun _ => .pure ?_
      have hle := hle₂.trans (hle₃.trans hle₄)
      exact .ifElse (hmarks.mono (hle₁.trans hle)) (hx.mono hle).same (ht.mono (hle₃.trans hle₄)) he
    · have hle := hle₂.trans hle₃
      exact .ifThen (hmarks.mono (hle₁.trans hle)) (hx.mono hle).same (ht.mono hle₃)
  · next heq =>
    refine (condition_alongside _ hkind (by rw [heq]; rfl)).bind fun L₁ x x' r₁ r₁' hle₁ hx => ?_
    refine (h.alongside hd L₁ r₁ r₁').bind fun L₂ b b' _ _ hle₂ hb => .get fun _ => .pure ?_
    exact .whileLoop (hmarks.mono (hle₁.trans hle₂)) (hx.mono hle₂).same hb
  · refine (Alongside.advance_of_ahead hahead).bind fun L₁ _ _ r₁ r₁' hle₁ _ => ?_
    refine (optionalValue_alongside r₁ r₁').bind fun L₂ x x' r₂ r₂' hle₂ hx => ?_
    refine (Alongside.expect _ _ r₂ r₂').bind fun L₃ _ _ _ _ hle₃ _ => .get fun _ => .pure ?_
    exact .returns (hmarks.mono (hle₁.trans (hle₂.trans hle₃)))
      (Expr.Twin.same_option (Expr.Twin.lasting.option.mono hle₃ hx))
  · refine (Alongside.advance_of_ahead hahead).bind fun L _ _ _ _ hle _ => .get fun _ => .pure ?_
    exact .empty (hmarks.mono hle)
  · refine (declaration_alongside r r').bind fun L ds ds' _ _ hle hds => .get fun _ => .pure ?_
    exact .of_declarators (hmarks.mono hle) hds
  · refine (expression_alongside K r r').bind fun L₁ x x' r₁ r₁' hle₁ hx => ?_
    refine (Alongside.expect _ _ r₁ r₁').bind fun L₂ _ _ _ _ hle₂ _ => .get fun _ => .pure ?_
    exact .expression (hmarks.mono (hle₁.trans hle₂)) (hx.mono hle₂).same

end

section

variable (hF : F.AtLoops exact)
include hF

/-- Statements with their attributes, also where the texts part. -/
theorem statementFor_body (rounds rounds' : List Item) :
    Body exact F (strict.statementFor rounds) (strict.statementFor rounds') := by
  have hkeeps (rounds : List Item) : Parse.Keeps Reader.Extends (strict.statementFor rounds) :=
    statementFor_keeps Reader.extends_invariant Reader.strict_extends rounds
  refine ⟨fun {d} hd => ?_, ⟨hkeeps rounds, hkeeps rounds'⟩,
    fun r => ⟨statementFor_consumes r rounds, statementFor_consumes r rounds'⟩⟩
  induction rounds generalizing rounds' d with
  | nil => exact fun K r r' => .fails_left (.fail _ r)
  | cons _ rounds ih =>
    cases rounds' with
    | nil => exact fun K r r' => .fails_right (.fail _ r')
    | cons _ rounds' =>
      have hbody : Body exact F (strict.statementFor rounds) (strict.statementFor rounds') :=
        ⟨fun {_} hd => ih rounds' hd, ⟨hkeeps rounds, hkeeps rounds'⟩,
          fun r => ⟨statementFor_consumes r rounds, statementFor_consumes r rounds'⟩⟩
      intro K r r' hr s s' r₂ r₂' hrun hrun'
      obtain ⟨marks, r₁, hmarks, hrun⟩ := bind_eq_ok hrun
      obtain ⟨marks', r₁', hmarks', hrun'⟩ := bind_eq_ok hrun'
      obtain ⟨L, hle, hcases⟩ := attributes_alongside hr hmarks hmarks'
      rcases hcases with ⟨htwins, hr₁, hahead⟩ | ⟨front, more, r₀, rfl, hfront, hmore, hr₀, hfork⟩
      · obtain ⟨M, hle', hr₂, hs⟩ := statementRest_alongside hF hbody hd (.of_twins htwins) hahead
          hr₁ s s' r₂ r₂' hrun hrun'
        exact ⟨M, hle.trans hle', hr₂, hs⟩
      · obtain ⟨M, hle', hr₂, hs⟩ :=
          hF.joins hbody hd hr₀ hfork (.of_twins hfront) hmore s s' r₂ r₂' hrun hrun'
        exact ⟨M, hle.trans hle', hr₂, hs⟩

theorem statement_body : Body exact F strict.statement strict.statement := by
  have hkeeps : Parse.Keeps Reader.Extends strict.statement :=
    statement_keeps Reader.extends_invariant Reader.strict_extends
  refine ⟨fun {d} hd K r r' => .get fun _ => ?_, ⟨hkeeps, hkeeps⟩,
    fun r => ⟨statement_consumes r, statement_consumes r⟩⟩
  exact (statementFor_body hF r.remaining r'.remaining).alongside hd K r r'

/-! ## Functions -/

theorem functionRest_alongside (hd : 2 ≤ d) (r r' : Reader) :
    strict.functionRest.Alongside F (.inScopes exact d) K (fun L p p' =>
      List.Forall₂ (Pairing.TypedRef L) p.1 p'.1 ∧
        List.Forall₂ (Stmt.Alike exact L) p.2.statements p'.2.statements) strict.functionRest
      r r' := by
  refine (Alongside.expect _ _ r r').bind fun L₁ _ _ r₁ r₁' _ _ => ?_
  refine (parameters_alongside hF.close r₁ r₁').bind fun L₂ vs vs' r₂ r₂' _ hvs => ?_
  refine (Alongside.expect _ _ r₂ r₂').bind fun L₃ _ _ r₃ r₃' hle₃ _ => ?_
  refine (block_alongside (statement_body hF) hd r₃ r₃').bind fun L₄ b b' _ _ hle₄ hb => .pure ?_
  exact ⟨hvs.imp fun _ _ hv => hv.mono (hle₃.trans hle₄), hb⟩

theorem function_alongside (K : Pairing) (r r' : Reader) :
    strict.function.Alongside F (.inScopes exact 1) K (Function.Alike exact) strict.function
      r r' := by
  have hextends : Parse.Keeps Reader.Extends strict.functionRest :=
    functionRest_keeps Reader.extends_invariant Reader.strict_extends
  refine behindAttributes_alongside exact (fun _ hfork _ => ?_)
    (fun L₁ marks marks' r₁ r₁' _ hmarks => ?_) r r'
  · exact .get (.bind (typeName_fails hfork.parting.mayPart.2))
  refine .get fun _ => (typeName_alongside r₁ r₁').bind fun L₂ t t' r₂ r₂' hle₂ ht => ?_
  refine (Alongside.name _ r₂ r₂').bind fun L₃ n n' r₃ r₃' hle₃ hn => ?_
  refine (Alongside.inScope hextends hextends
    (functionRest_alongside hF (Nat.le_refl 2)) r₃ r₃').bind
    fun L₄ p p' r₄ r₄' hle₄ hp => .get fun _ => .pure ?_
  subst ht hn
  exact .of_parts rfl rfl (hmarks.mono (hle₂.trans (hle₃.trans hle₄)))
    (.map (hp.1.imp fun _ _ hv => hv.same)) hp.2

theorem functions_alongside (r r' : Reader) : strict.functions.Alongside F (.inScopes exact 1) K
    (fun L => List.Forall₂ (Function.Alike exact L)) strict.functions r r' := by
  have hadvances : strict.programItem.Advances :=
    item_advances _ function_consumes fun _ _ hf => hf.derives.ne_nil
  have hitem (K : Pairing) (r r' : Reader) : strict.programItem.Alongside F (.inScopes exact 1) K
      (fun L => Option.Rel (Option.Rel (Function.Alike exact L))) strict.programItem r r' :=
    item_alongside _ (fun hr => hr.sees_eq Fork.blind_endOfFile) (function_alongside hF K r r')
  exact (Alongside.many hadvances hadvances (Function.Alike.lasting exact).option hitem r r').bind
    fun _ _ _ _ _ _ hitems => .pure (forall₂_filterMap_id hitems)

end

end Handling

end Grammar

/-! ## Programs -/

/-- The functions of a program as they are read from the first token on. -/
theorem Program.functions_of_readStrict {source : String} {p : Program} {r : Reader}
    (h : readStrict source = .ok p) (hr : Reader.ofSource source = .ok r) :
    ∃ r', Grammar.Handling.strict.functions r = (.ok p.functions, r') ∧ r'.vars = p.vars := by
  unfold readStrict at h
  rw [hr] at h
  dsimp only at h
  rcases hrun : Grammar.Handling.strict.functions r with ⟨failure | fs, r'⟩
  · rw [hrun] at h
    cases h
  · rw [hrun] at h
    obtain rfl := Except.ok.inj h
    exact ⟨r', rfl, rfl⟩

/-- Two texts that are read alongside are the same program but for spans and numbers. -/
theorem Program.alike_of_alongside {exact : Prop} {F : Fork} (hF : F.AtLoops exact)
    {source source' : String} {ts ts' : List Token} (h : tokenize source = .ok ts)
    (h' : tokenize source' = .ok ts') {us ws ws' : List Word} (hends : F.ends ws ws')
    (hwords : ts.map Token.word = us ++ ws) (hwords' : ts'.map Token.word = us ++ ws')
    {p p' : Program} (hp : read source = .ok p) (hp' : read source' = .ok p') :
    ∃ K, p.Alike exact K p' := by
  obtain ⟨r, hr, hready, hcontext, hsees⟩ := Reader.sees_of_scan (scan_of_tokenize h)
  obtain ⟨r', hr', hready', hcontext', hsees'⟩ := Reader.sees_of_scan (scan_of_tokenize h')
  obtain ⟨r₁, hrun, hvars⟩ := functions_of_readStrict (readStrict_of_read hp) hr
  obtain ⟨r₁', hrun', hvars'⟩ := functions_of_readStrict (readStrict_of_read hp') hr'
  have hnames : (Naming.inScopes exact 1).holds .empty r.context r'.context := by
    rw [hcontext, hcontext']
    exact ⟨.initial exact, rfl⟩
  have halong : r.Alongside F (.inScopes exact 1) .empty r' :=
    ⟨hready, hready', ⟨us, ws, ws', hends, hwords ▸ hsees, hwords' ▸ hsees'⟩, hnames⟩
  obtain ⟨K, -, hafter, hfs⟩ :=
    Grammar.Handling.functions_alongside hF r r' halong _ _ _ _ hrun hrun'
  exact ⟨K, hafter.names.1.program_alike hvars hvars' hfs⟩

end LoopNest
