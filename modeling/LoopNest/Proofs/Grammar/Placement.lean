import LoopNest.Proofs.Grammar.AlongStmt
import LoopNest.Proofs.Grammar.Matched
import LoopNest.Proofs.Grammar.Sizes

/-!
# Where the attributes of a loop stand

The attributes of a loop may stand in front of it or in its header. In front of the loop they are
read first, outside the scope of the header; in the header they are read last, inside that scope.

* `Grammar.Handling.LoopRun`: a loop that is read, with the readers between its parts.
* `MarkedLoop`: a text with one loop and its attributes, which it has in one place or in the other.
* `MarkedLoop.Apart`: no argument of the attributes uses a name that the header declares.
* `MarkedLoop.loop_alongside`: the loop is read alongside in both places.
* `MarkedLoop.atLoops`: the two texts part in front of the loop, and are read alongside behind it.
-/

namespace LoopNest

/-! ## What readers see -/

namespace Reader

variable {r r₁ : Reader} {w : Word} {us ws : List Word}

theorem Sees.unique (h : r.Sees us) (h' : r.Sees ws) : us = ws := by
  obtain ⟨ts, hts, rfl⟩ := h
  obtain ⟨ts', hts', rfl⟩ := h'
  have hmap : ts.map Item.token = ts'.map Item.token := hts.symm.trans hts'
  rw [List.map_injective_iff.mpr (fun _ _ => Item.token.inj) hmap]

/-- The words of the tokens that were taken lay ahead, and behind them lie the others. -/
theorem Sees.took {ts : List Token} (h : r.Sees ws) (htook : r.Took ts r₁) :
    ∃ us, ws = ts.map Token.word ++ us ∧ r₁.Sees us := by
  obtain ⟨vs, hremaining, rfl⟩ := h
  rw [htook.remaining] at hremaining
  obtain ⟨ts', us, rfl, hts, hus⟩ := List.map_eq_append_iff.mp hremaining.symm
  obtain rfl : ts' = ts := List.map_injective_iff.mpr (fun _ _ => Item.token.inj) hts
  exact ⟨us.map Token.word, List.map_append, us, hus.symm, rfl⟩

/-- There is always a word ahead. -/
theorem Sees.exists_cons (h : r.Sees ws) : ∃ us, ws = r.current.word :: us := by
  cases ws with
  | nil => exact absurd h.length_remaining (by simp [remaining])
  | cons w us => exact ⟨us, by rw [h.word_current]⟩

namespace Ready

/-- The token in front is passed over, if the step takes one token. -/
theorem past_token {α : Type} {step : Parse α} {a : α} (hr : r.Ready)
    (hsees : r.Sees (w :: ws)) (hkeeps : Parse.Keeps SameProblems step)
    (hensures : step.Ensures r.remaining r fun _ r' => r'.context = r.context)
    (hconsumes : step.Consumes r fun ts _ => ∃ t, ts = [t])
    (hrun : step r = (.ok a, r₁)) : r₁.Ready ∧ r₁.context = r.context ∧ r₁.Sees ws := by
  obtain ⟨hr₁, hcontext⟩ := hr.of_run hkeeps hensures hrun
  obtain ⟨-, -, ts, htook, t, rfl⟩ := hconsumes hr.sound.closed hr.sound.scoped a r₁ hrun
  obtain ⟨us, hwords, hus⟩ := hsees.took htook
  obtain ⟨-, rfl⟩ := List.cons.inj hwords
  exact ⟨hr₁, hcontext, hus⟩

end Ready

end Reader

namespace Grammar

open Parse

variable {r r₁ : Reader}

/-! ## Attributes -/

/-- The attributes are read one after the other. -/
theorem Marks.reads {marks : List Attribute} (h : Marks r marks r₁) (hr : r.Ready) :
    r₁.Ready ∧ r.context.ReadsMarks marks r₁.context := by
  have hkeeps : Parse.Keeps Reader.SameProblems oneAttribute :=
    oneAttribute_keeps Reader.sameProblems_invariant
  induction h with
  | @stop r r₁ hnone =>
    obtain ⟨hr₁, hsame⟩ := hr.of_run hkeeps (oneAttribute_ensures r) hnone
    obtain rfl : r₁ = r := hsame
    exact ⟨hr₁, by simp, .nil _⟩
  | @next r r₁ _ a marks hsome _ ih =>
    obtain ⟨hr₁, hname, hargs, -⟩ := hr.of_run hkeeps (oneAttribute_ensures r) hsome
    obtain ⟨hr₂, hnames, hreads⟩ := ih hr₁
    exact ⟨hr₂, List.forall_mem_cons.mpr ⟨hname, hnames⟩, hargs.append hreads⟩

theorem attributes_phrase {marks : List Attribute} {us ws : List Word} (hr : r.Ready)
    (hsees : r.Sees (us ++ ws)) (hrun : attributes r = (.ok marks, r₁)) (hsees₁ : r₁.Sees ws) :
    Phrase (Rows DerivesAttribute) us marks := by
  obtain ⟨-, -, ts, htook, hts⟩ :=
    attributes_consumes r hr.sound.closed hr.sound.scoped marks r₁ hrun
  obtain ⟨vs, hwords, hvs⟩ := hsees.took htook
  obtain rfl := hvs.unique hsees₁
  exact ⟨ts, (List.append_cancel_right hwords).symm, hts.mono fun _ _ h => h.derives⟩

/-! ## Headers -/

theorem kind_of_expect {s : Symbol} {place : Place} {a : Unit}
    (hrun : expect s place r = (.ok a, r₁)) : r.current.kind = .symbol s := by
  by_contra hne
  exact expect_fails place hne a r₁ hrun

theorem expect_over {s : Symbol} {place : Place} {a : Unit} {w : Word} {ws : List Word}
    (hr : r.Ready) (hsees : r.Sees (w :: ws)) (hrun : expect s place r = (.ok a, r₁)) :
    r₁.Ready ∧ r₁.context = r.context ∧ r₁.Sees ws :=
  hr.past_token hsees (Keeps.expect Reader.sameProblems_invariant s place)
    ((Ensures.expect s place r).mono fun _ _ _ _ _ h => h.1)
    ((Consumes.expect s place r).mono fun _ _ h => h.imp fun _ ht => ht.1) hrun

theorem advance_over {a : Unit} {w : Word} {ws : List Word} (hr : r.Ready)
    (hsees : r.Sees (w :: ws)) (hw : w.kind ≠ .endOfFile) (hrun : advance r = (.ok a, r₁)) :
    r₁.Ready ∧ r₁.context = r.context ∧ r₁.Sees ws :=
  hr.past_token hsees (Keeps.advance Reader.sameProblems_invariant)
    ((Ensures.advance r).mono fun _ _ _ _ _ h => h.2)
    ((Consumes.advance (hsees.kind_current ▸ hw)).mono fun _ _ h => ⟨_, h⟩) hrun

/-- Behind the clauses of a header stands a semicolon or a closing parenthesis. -/
theorem closes_of_headerAttributes {marks : List Attribute} {a : Unit} {place : Place}
    {r₂ : Reader} (hmarks : headerAttributes r = (.ok marks, r₁))
    (hrun : expect .rightParen place r₁ = (.ok a, r₂)) : r.current.word.Closes := by
  by_cases hkind : r.current.kind = .symbol .semicolon
  · exact .inl hkind
  · have haccept : accept .semicolon r = (.ok false, r) := acceptKind_of_ne hkind
    rw [headerAttributes, bind_apply, haccept] at hmarks
    obtain ⟨-, rfl⟩ := Prod.mk.inj hmarks
    exact .inr (kind_of_expect hrun)

/-- Attributes stand in a header behind a semicolon only. -/
theorem headerAttributes_cases {marks : List Attribute} {w : Word} {ws : List Word} (hr : r.Ready)
    (hsees : r.Sees (w :: ws)) (hrun : headerAttributes r = (.ok marks, r₁)) :
    (w.kind ≠ .symbol .semicolon ∧ marks = [] ∧ r₁ = r) ∨ (w.kind = .symbol .semicolon ∧ ∃ r₂,
      r₂.Ready ∧ r₂.context = r.context ∧ r₂.Sees ws ∧ attributes r₂ = (.ok marks, r₁)) := by
  obtain ⟨accepted, r₂, haccept, hrest⟩ := bind_eq_ok hrun
  have hkeeps : Parse.Keeps Reader.SameProblems (accept .semicolon) :=
    .acceptKind Reader.sameProblems_invariant _
  obtain ⟨hr₂, hcontext, hcases⟩ := hr.of_run hkeeps (Ensures.acceptKind _ r) haccept
  cases accepted with
  | false =>
    obtain ⟨rfl, hkind⟩ := hcases
    obtain ⟨hnil, rfl⟩ := Prod.mk.inj hrest
    exact .inl ⟨hsees.kind_current ▸ hkind, (Except.ok.inj hnil).symm, rfl⟩
  | true =>
    obtain ⟨hkind, -⟩ := hcases
    obtain ⟨-, -, ts, htook, t, rfl, -⟩ :=
      Consumes.acceptKind (by simp) r hr.sound.closed hr.sound.scoped true r₂ haccept
    obtain ⟨us, hwords, hus⟩ := hsees.took htook
    obtain ⟨-, rfl⟩ := List.cons.inj hwords
    exact .inr ⟨hsees.kind_current ▸ hkind, r₂, hr₂, hcontext, hus, hrest⟩

namespace Handling

theorem clauses_consumes (r : Reader) : strict.clauses.Consumes r fun ts p => ∃ us vs t ws,
    ts = us ++ (vs ++ t :: ws) ∧ DerivesInit us p.1 ∧ DerivesClause vs p.2.1 ∧
      t.kind = .symbol .semicolon ∧ DerivesClause ws p.2.2 := by
  refine (initClause_consumes r).bind fun i r₁ us hi => ?_
  refine (clause_consumes r₁ _).bind fun k r₂ vs hk => ?_
  refine (Consumes.expect _ _ r₂).bind fun _ r₃ ts ht => ?_
  refine (clause_consumes r₃ _).bind fun u r₄ ws hu => .pure ?_
  obtain ⟨t, rfl, ht⟩ := ht
  exact ⟨us, vs, t, ws, by simp, hi.derives, hk.derives, ht, hu.derives⟩

/-- The clauses of a header declare the variables of the first one. -/
theorem clauses_ensures (r : Reader) : tolerant.clauses.Ensures r.remaining r fun p r' =>
    ∃ us, r.context.RunWith us p.1.declared r'.context := by
  refine (initClause_ensures r).bind fun i r₁ => (clause_ensures r₁ _).bind fun k r₂ => ?_
  refine (Ensures.expect _ _ r₂).bind fun _ r₃ => (clause_ensures r₃ _).bind fun u r₄ => .pure ?_
  intro _ _ _ _ hu _ _ _ hexpect _ _ _ hk _ _ _ hi
  rw [← hexpect.1] at hk
  have hrun := (hi.2.run.append hk.2.run).append hu.2.run
  rw [Stmt.declared_eq_nil_of_isClause hk.1, Stmt.declared_eq_nil_of_isClause hu.1, List.append_nil,
    List.append_nil] at hrun
  exact ⟨_, hrun⟩

theorem clauses_follows : Parse.Follows tolerant.clauses strict.clauses := by
  have hR := Reader.sameProblems_invariant
  refine (initClause_follows tolerant_follows).bind fun i => .after (clause_keeps hR _) fun k => ?_
  refine .after (Keeps.expect hR _ _) fun _ => .after (clause_keeps hR _) fun u => .pure _

/-! ## Loops -/

/-- A loop that is read, with the readers at its header, behind the clauses and the attributes in
there, at the body and behind it. -/
structure LoopRun (statement : Parse Stmt) (r : Reader) where
  opened : Reader
  clauses : Stmt × Stmt × Stmt
  marked : Reader
  marks : List Attribute
  closed : Reader
  entered : Reader
  body : Stmt
  done : Reader
  opens : (do advance; expect .leftParen .forKeyword : Parse Unit) r = (.ok (), opened)
  reads_clauses :
    strict.clauses { opened with scopes := opened.scopes.push } = (.ok clauses, marked)
  reads_marks : headerAttributes marked = (.ok marks, closed)
  closes : expect .rightParen .forHeader closed = (.ok (), entered)
  reads_body : statement entered = (.ok body, done)
  extends_scopes : opened.scopes.push.Extends done.scopes

theorem exists_loopRun {statement : Parse Stmt} (hkeeps : Parse.Keeps Reader.Extends statement)
    {marks : List Attribute} {s : Stmt}
    (hrun : strict.forStatement statement marks r = (.ok s, r₁)) :
    ∃ (run : LoopRun statement r) (span : Span),
      s = .forLoop ⟨span, marks ++ run.marks⟩ run.clauses.1 run.clauses.2.1 run.clauses.2.2
        run.body ∧ r₁ = { run.done with scopes := run.done.scopes.pop } := by
  obtain ⟨start, r₂, hstart, hrun⟩ := bind_eq_ok hrun
  obtain ⟨-, rfl⟩ := Prod.mk.inj hstart
  obtain ⟨_, r₃, hadvance, hrun⟩ := bind_eq_ok hrun
  obtain ⟨_, r₄, hexpect, hrun⟩ := bind_eq_ok hrun
  obtain ⟨⟨more, loop⟩, r₅, hscope, hrun⟩ := bind_eq_ok hrun
  obtain ⟨hs, rfl⟩ := Prod.mk.inj hrun
  obtain ⟨r₆, hrest, hpop⟩ := inScope_eq_ok hscope
  have hextends : Reader.Extends { r₄ with scopes := r₄.scopes.push } r₆ := by
    have hkeep := forRest_keeps Reader.extends_invariant Reader.strict_extends hkeeps
      { r₄ with scopes := r₄.scopes.push }
    rwa [hrest] at hkeep
  rw [forRest_eq] at hrest
  obtain ⟨p, r₇, hclauses, hrest⟩ := bind_eq_ok hrest
  obtain ⟨more', r₈, hmarks, hrest⟩ := bind_eq_ok hrest
  obtain ⟨_, r₉, hclose, hrest⟩ := bind_eq_ok hrest
  obtain ⟨b, r₁₀, hbody, hrest⟩ := bind_eq_ok hrest
  obtain ⟨hloop, rfl⟩ := Prod.mk.inj hrest
  obtain ⟨rfl, rfl⟩ := Prod.mk.inj (Except.ok.inj hloop)
  have hopens : (do advance; expect .leftParen .forKeyword : Parse Unit) r = (.ok (), r₄) := by
    rw [bind_apply, hadvance]
    exact hexpect
  exact ⟨⟨r₄, p, r₇, more', r₈, r₉, b, r₁₀, hopens, hclauses, hmarks, hclose, hbody,
    hextends.scopes⟩, _, (Except.ok.inj hs).symm, hpop⟩

/-- The reader at the header sees the words behind the parenthesis. -/
theorem LoopRun.opened_sees {statement : Parse Stmt} (run : LoopRun statement r) (hr : r.Ready)
    {w w' : Word} {ws : List Word} (hsees : r.Sees (w :: w' :: ws)) (hw : w.kind ≠ .endOfFile) :
    run.opened.Ready ∧ run.opened.context = r.context ∧ run.opened.Sees ws := by
  obtain ⟨_, r₁, hadvance, hexpect⟩ := bind_eq_ok run.opens
  obtain ⟨hr₁, hcontext₁, hsees₁⟩ := advance_over hr hsees hw hadvance
  obtain ⟨hr₂, hcontext₂, hsees₂⟩ := expect_over hr₁ hsees₁ hexpect
  exact ⟨hr₂, hcontext₂.trans hcontext₁, hsees₂⟩

theorem LoopRun.entered_sees {statement : Parse Stmt} (run : LoopRun statement r)
    (hr : run.closed.Ready) {w : Word} {ws : List Word} (hsees : run.closed.Sees (w :: ws)) :
    run.entered.Ready ∧ run.entered.context = run.closed.context ∧ run.entered.Sees ws :=
  expect_over hr hsees run.closes

/-- What the clauses of a header are read as: variables of the first one are declared. -/
theorem clauses_run {p : Stmt × Stmt × Stmt} (hr : r.Ready)
    (hrun : strict.clauses r = (.ok p, r₁)) :
    r₁.Ready ∧ ∃ us, r.context.RunWith us p.1.declared r₁.context :=
  hr.of_follows clauses_follows (clauses_ensures r) hrun

/-- No statement starts with a parenthesis that closes something, nor at the end of the file. -/
theorem statementRest_fails {statement : Parse Stmt} {marks : List Attribute}
    (h : r.current.kind = .symbol .rightParen ∨ r.current.kind = .endOfFile) :
    (strict.statementRest statement marks).Fails r := by
  have hmayPart : r.current.kind.mayPart = true := by
    rcases h with hkind | hkind <;> rw [hkind] <;> rfl
  refine .get (.get ?_)
  rcases h with hkind | hkind
  all_goals
    rw [hkind]
    exact .bind (expression_fails hmayPart)

/-- A loop is read where its keyword stands. -/
theorem statementRest_of_loop {statement : Parse Stmt} {marks : List Attribute} {s : Stmt}
    (hkind : r.current.kind = .keyword .forLoop)
    (hrun : strict.statementRest statement marks r = (.ok s, r₁)) :
    strict.forStatement statement marks r = (.ok s, r₁) := by
  have hget : (get : Parse Reader) r = (.ok r, r) := rfl
  have hstart : currentSpan r = (.ok r.current.span, r) := rfl
  rw [statementRest, bind_apply, hstart] at hrun
  dsimp only at hrun
  rw [bind_apply, hget] at hrun
  dsimp only at hrun
  rwa [hkind] at hrun

end Handling

end Grammar

/-! ## Names among words -/

namespace Grammar

variable {ts : List Token}

theorem mem_words_of_variableNames {n : String} (h : n ∈ variableNames ts) :
    Word.name n ∈ ts.map Token.word := by
  induction ts with
  | nil => cases h
  | cons t ts ih =>
    rw [variableNames] at h
    rw [List.map_cons]
    split at h
    · next hname =>
      rcases List.mem_cons.mp h with rfl | h
      · exact List.mem_cons.mpr (.inl (congrArg (Word.mk · t.lexeme) hname.1.symm))
      · exact List.mem_cons_of_mem _ (ih h)
    · exact List.mem_cons_of_mem _ (ih h)

theorem DerivesArguments.mem_words {args : List Expr} (h : DerivesArguments ts args) :
    ∀ v ∈ args.flatMap Expr.refs, Word.name v.name ∈ ts.map Token.word := by
  obtain ⟨hts, hargs⟩ := h
  have hnames := (Uses.commas hts fun a ha => (hargs a ha).uses).names [] (by simp [NoCall])
  rw [List.append_nil] at hnames
  intro v hv
  refine mem_words_of_variableNames (hnames ▸ List.mem_append_left _ ?_)
  exact List.mem_map_of_mem hv

/-- The names in attributes are among their words. -/
theorem mem_words_of_marks {as : List Attribute} (h : Rows DerivesAttribute ts as) :
    ∀ v ∈ Attribute.refsAll as, Word.name v.name ∈ ts.map Token.word := by
  induction h with
  | nil => exact fun _ hv => absurd hv List.not_mem_nil
  | @cons us vs a as first _ ih =>
    intro v hv
    rw [Attribute.refsAll, List.flatMap_cons, List.flatMap_append] at hv
    rw [List.map_append]
    rcases List.mem_append.mp hv with hv | hv
    · refine List.mem_append_left _ ?_
      cases first with
      | plain _ _ => cases hv
      | applied _ _ _ hargs _ => simp [hargs.mem_words v hv]
    · exact List.mem_append_right _ (ih v hv)

/-- The names that the first clause of a header declares are among its words. -/
theorem DerivesInit.mem_words {s : Stmt} (h : DerivesInit ts s) :
    ∀ v ∈ s.declared, Word.name v.name ∈ ts.map Token.word := by
  intro v hv
  cases h with
  | clause h _ => cases h <;> cases hv
  | declaration h =>
    obtain @⟨us, vs, _, _, items, _, hvs, _, hitems, _⟩ := h
    have hv : v ∈ (items.map Prod.snd).map Declarator.var := by
      simpa [Stmt.declared_eq, Stmt.declarators?, Stmt.children] using hv
    obtain ⟨_, hd, rfl⟩ := List.mem_map.mp hv
    obtain ⟨item, hitem, rfl⟩ := List.mem_map.mp hd
    have hname : Word.name item.2.var.name ∈ item.1.map Token.word := by
      obtain ⟨ts, d⟩ := item
      cases hitems _ hitem with
      | named _ hn _ _ => simp [Token.word, Word.name, hn]
    have hsublist := ((hvs.sublist (List.mem_map_of_mem hitem)).map Token.word).subset hname
    simp only [List.map_append, List.mem_append]
    exact .inr (.inl hsublist)

end Grammar

/-! ## Loops and their attributes -/

open Grammar in
/-- A loop with its attributes, among the words of a text. -/
structure MarkedLoop where
  /-- The words in front of the loop and its attributes. -/
  ahead : List Word
  marks : List Word
  /-- The first clause of the header, with its semicolon. -/
  init : List Word
  check : List Word
  update : List Word
  /-- The body of the loop, and what follows it. -/
  behind : List Word
  isMarks : ∃ as, Phrase (Rows DerivesAttribute) marks as
  isInit : ∃ s, Phrase DerivesInit init s
  isCheck : ∃ s, Phrase DerivesClause check s
  isUpdate : ∃ s, Phrase DerivesClause update s

namespace MarkedLoop

open Parse Grammar Grammar.Handling

variable (l : MarkedLoop)

def header : List Word := l.init ++ (l.check ++ .symbol .semicolon :: l.update)

/-- The text with the attributes in front of the loop. -/
def inFront : List Word :=
  l.ahead ++ (l.marks ++ .keyword .forLoop :: .symbol .leftParen ::
    (l.header ++ .symbol .rightParen :: l.behind))

/-- The text with the attributes in the header of the loop. -/
def inHeader : List Word :=
  l.ahead ++ .keyword .forLoop :: .symbol .leftParen ::
    (l.header ++ .symbol .semicolon :: (l.marks ++ .symbol .rightParen :: l.behind))

/-- No argument of the attributes uses a name that the header declares. -/
def Apart : Prop := ∀ as s, Phrase (Rows DerivesAttribute) l.marks as →
  Phrase DerivesInit l.init s → ∀ v ∈ Attribute.refsAll as, ∀ w ∈ s.declared, v.name ≠ w.name

/-- So it is if no name in the attributes stands in the first clause of the header. -/
theorem apart_of_words (h : ∀ w ∈ l.marks, w.kind = .identifier → w ∉ l.init) : l.Apart := by
  rintro as s ⟨ts, hts, hmarks⟩ ⟨us, hus, hinit⟩ v hv w hw hname
  have hleft := hts ▸ mem_words_of_marks hmarks v hv
  have hright := hus ▸ hinit.mem_words w hw
  exact h _ hleft rfl (hname ▸ hright)

/-- The words from the end of the header on. -/
def closing : List Word := .symbol .rightParen :: (l.behind ++ [.endOfFile])

/-- The words of the loop up to its clauses, with others behind these. -/
def opening (ws : List Word) : List Word :=
  .keyword .forLoop :: .symbol .leftParen :: (l.header ++ ws)

/-- The words of the loop with its attributes in the header, from the keyword on. -/
def marking : List Word := .symbol .semicolon :: (l.marks ++ l.closing)

theorem inFront_append :
    l.inFront ++ [.endOfFile] = l.ahead ++ (l.marks ++ l.opening l.closing) := by
  simp [inFront, opening, closing]

theorem inHeader_append :
    l.inHeader ++ [.endOfFile] = l.ahead ++ l.opening l.marking := by
  simp [inHeader, opening, closing, marking]

/-! ## Where the texts part -/

variable {l}

theorem marks_cases : l.marks = [] ∨ ∃ w ws, l.marks = w :: ws ∧ w.kind = .symbol .atSign := by
  obtain ⟨as, ts, hwords, hts⟩ := l.isMarks
  rw [← hwords]
  cases hts with
  | nil => exact .inl rfl
  | cons h _ =>
    right
    cases h with
    | plain ht _ => exact ⟨_, _, rfl, ht⟩
    | applied ht _ _ _ _ => exact ⟨_, _, rfl, ht⟩

variable (l)

/-- The texts part at the attributes of the loop, and where both end. -/
def fork : Fork where
  ends ws ws' := (ws = l.marks ++ l.opening l.closing ∧ ws' = l.opening l.marking) ∨
    (ws = [.endOfFile] ∧ ws' = [.endOfFile])
  parting := by
    rintro ws ws' (⟨rfl, rfl⟩ | ⟨rfl, rfl⟩)
    · rcases l.marks_cases with hmarks | ⟨w, us, hmarks, hkind⟩
      · rw [hmarks]
        exact ⟨_, _, _, _, rfl, rfl, .loop⟩
      · rw [hmarks]
        refine ⟨_, _, _, _, rfl, rfl, ?_⟩
        rw [hkind]
        exact .marks
    · exact ⟨_, _, _, _, rfl, rfl, .finish⟩

/-- The headers are the same up to the attributes in the second one. -/
def headerFork : Fork where
  ends ws ws' := ws = l.closing ∧ ws' = l.marking
  parting := by
    rintro ws ws' ⟨rfl, rfl⟩
    exact ⟨_, _, _, _, rfl, rfl, .header⟩

/-- The attributes are the same up to where they end. -/
def marksFork : Fork where
  ends ws ws' := ws = l.opening l.closing ∧ ws' = l.closing
  parting := by
    rintro ws ws' ⟨rfl, rfl⟩
    exact ⟨_, _, _, _, rfl, rfl, .behind⟩

/-! ## The header -/

variable {l} {exact : Prop} {r r₁ : Reader}

/-- Where the clauses end can be seen from the words. -/
theorem reads_clauses {w : Word} {ws : List Word} {p : Stmt × Stmt × Stmt} (hw : w.Closes)
    (hr : r.Ready) (hsees : r.Sees (l.header ++ w :: ws)) (hrun : strict.clauses r = (.ok p, r₁))
    (hcloses : r₁.current.word.Closes) :
    r₁.Sees (w :: ws) ∧ Phrase DerivesInit l.init p.1 := by
  obtain ⟨-, -, ts, htook, us, vs, t, xs, rfl, hinit, hcheck, ht, hupdate⟩ :=
    clauses_consumes r hr.sound.closed hr.sound.scoped p r₁ hrun
  obtain ⟨rest, hwords, hrest⟩ := hsees.took htook
  obtain ⟨rest, rfl⟩ := hrest.exists_cons
  have hwords : l.init ++ (l.check ++ .symbol .semicolon :: (l.update ++ w :: ws)) =
      us.map Token.word ++ (vs.map Token.word ++ t.word ::
        (xs.map Token.word ++ r₁.current.word :: rest)) := by
    simpa [header] using hwords
  obtain ⟨i, hi⟩ := l.isInit
  obtain ⟨k, hk⟩ := l.isCheck
  obtain ⟨u, hu⟩ := l.isUpdate
  obtain ⟨heq, hrest'⟩ := Phrase.clauses_unique hi ⟨us, rfl, hinit⟩ hk ⟨vs, rfl, hcheck⟩
    (.inl rfl) (.inl ht) hu ⟨xs, rfl, hupdate⟩ hw hcloses hwords
  exact ⟨hrest' ▸ hrest, us, heq.symm, hinit⟩

/-- The attributes of the loop, in front of it and in its header. In front of it all of them are
read, since no statement starts where the header ends. -/
theorem reads_marks {r r₁ s s₁ : Reader} {more more' : List Attribute} (hr : r.Ready)
    (hs : s.Ready) (hsees : r.Sees (l.marks ++ l.opening l.closing))
    (hsees' : s.Sees (l.marks ++ l.closing)) (h : Marks r more r₁) (h' : Marks s more' s₁)
    (hclose : s₁.current.kind = .symbol .rightParen)
    (hgo : r₁.current.kind ≠ .symbol .rightParen) :
    r₁.Sees (l.opening l.closing) ∧ s₁.Sees l.closing ∧
      more.map Attribute.shape = more'.map Attribute.shape := by
  let K : Pairing := ⟨fun _ _ => True, fun _ _ => True⟩
  have halong : r.Alongside l.marksFork .none K s :=
    ⟨hr, hs, ⟨l.marks, _, _, ⟨rfl, rfl⟩, hsees, hsees'⟩, fun _ _ => trivial⟩
  obtain ⟨L, front, rest, r₂, -, rfl, hfront, hrest, hr₂, -⟩ := h.alongside h' halong
  rcases hr₂.ahead_or_atFork with hahead | ⟨_, _, ⟨rfl, rfl⟩, hsees₁, hsees₁'⟩
  · have hkind : r₂.current.kind = .symbol .rightParen :=
      (congrArg Word.kind hahead.word_eq).trans hclose
    obtain ⟨rfl, rfl⟩ := hrest.eq_nil (by simp [hkind])
    exact absurd hkind hgo
  · have hkind : r₂.current.kind = .keyword .forLoop := hsees₁.kind_current
    obtain ⟨rfl, rfl⟩ := hrest.eq_nil (by simp [hkind])
    rw [List.append_nil]
    have hagree : L.Agree False (.plain fun _ => 0) (.plain fun _ => 0) :=
      ⟨fun _ _ _ => rfl, .inr fun _ _ => rfl⟩
    exact ⟨hsees₁, hsees₁', Attribute.Alike.of_twins hfront _ _ hagree⟩

section

variable {statement : Parse Stmt} (run : LoopRun statement r)

/-- The header without attributes. -/
theorem reads_closing (hr : r.Ready) (hsees : r.Sees (l.opening l.closing)) :
    run.marks = [] ∧ run.closed = run.marked ∧ run.marked.Ready ∧ run.marked.Sees l.closing ∧
      Phrase DerivesInit l.init run.clauses.1 ∧
      ∃ us, r.context.push.RunWith us run.clauses.1.declared run.marked.context := by
  obtain ⟨hopened, hcontext, hsees₁⟩ := run.opened_sees hr hsees (by simp [Word.keyword])
  obtain ⟨hpushed, hpush⟩ := hopened.push
  obtain ⟨hmarked, hrun⟩ := clauses_run hpushed run.reads_clauses
  obtain ⟨hsees₂, hinit⟩ := reads_clauses (.inr rfl) hpushed (hsees₁.of_remaining rfl)
    run.reads_clauses (closes_of_headerAttributes run.reads_marks run.closes)
  rw [hpush, hcontext] at hrun
  rcases headerAttributes_cases hmarked hsees₂ run.reads_marks with ⟨-, hnil, hsame⟩ | ⟨hkind, -⟩
  · exact ⟨hnil, hsame, hmarked, hsees₂, hinit, hrun⟩
  · cases hkind

/-- The header with the attributes behind a semicolon. -/
theorem reads_marking (hr : r.Ready) (hsees : r.Sees (l.opening l.marking)) :
    ∃ s, s.Ready ∧ s.context = run.marked.context ∧ s.Sees (l.marks ++ l.closing) ∧
      attributes s = (.ok run.marks, run.closed) := by
  obtain ⟨hopened, hcontext, hsees₁⟩ := run.opened_sees hr hsees (by simp [Word.keyword])
  obtain ⟨hpushed, hpush⟩ := hopened.push
  obtain ⟨hmarked, hrun⟩ := clauses_run hpushed run.reads_clauses
  obtain ⟨hsees₂, -⟩ := reads_clauses (.inl rfl) hpushed (hsees₁.of_remaining rfl)
    run.reads_clauses (closes_of_headerAttributes run.reads_marks run.closes)
  rcases headerAttributes_cases hmarked hsees₂ run.reads_marks with ⟨hne, -⟩ | ⟨-, hmarks⟩
  · exact absurd rfl hne
  · exact hmarks

end

/-! ## Names in the attributes -/

/-- Variables of the same names as those that the names stand for. -/
theorem forall₂_refs {K : Pairing} {c : Context} {us vs ws : List VarRef}
    (hfind : ∀ u ∈ us, c.find? u.name = some u)
    (h : List.Forall₂ (fun v w => c.find? w.name = some v ∧ K.Refs v w) vs ws)
    (hnames : us.map VarRef.name = ws.map VarRef.name) : List.Forall₂ K.Refs us ws := by
  induction h generalizing us with
  | nil =>
    obtain rfl := List.map_eq_nil_iff.mp hnames
    exact .nil
  | cons hv _ ih =>
    obtain ⟨u, us, rfl, hname, hnames⟩ := List.map_eq_cons_iff.mp hnames
    obtain ⟨hu, hus⟩ := List.forall_mem_cons.mp hfind
    rw [← hname, hu] at hv
    exact .cons (Option.some.inj hv.1 ▸ hv.2) (ih hus hnames)

/-- Attributes that were read before are read again, where their names stand for something. If it
matters they have to stand for the same. -/
theorem late_marks {K : Pairing} {c d d' : Context} {marks marks' : List Attribute}
    (h : Context.Follows exact K c d)
    (hfound : ∀ v ∈ Attribute.refsAll marks, c.find? v.name ≠ none)
    (hfind : exact → ∀ v ∈ Attribute.refsAll marks, c.find? v.name = some v)
    (hreads : d.ReadsMarks marks' d')
    (hshape : marks.map Attribute.shape = marks'.map Attribute.shape) :
    ∃ L, K.Le L ∧ Context.Follows exact L c d' ∧ Attribute.Alike exact L marks marks' := by
  have hnames := Attribute.names_eq_of_shape hshape
  have hfound' : ∀ w ∈ Attribute.refsAll marks', c.find? w.name ≠ none := by
    intro w hw
    obtain ⟨v, hv, hname⟩ := List.mem_map.mp (hnames ▸ List.mem_map_of_mem hw)
    exact hname ▸ hfound v hv
  obtain ⟨L, vs, hle, hfollows, hvs⟩ := h.lateAll hreads.2.2 hfound'
  refine ⟨L, hle, hfollows, ?_⟩
  by_cases hexact : exact
  · exact Attribute.same_of_shape hshape (.inl (forall₂_refs (hfind hexact) hvs hnames))
  · exact Attribute.same_of_shape hshape (.inr fun he => absurd he hexact)

section

variable {c c₀ c₁ : Context} {marks marks' : List Attribute} {s : Stmt} {us : List VarRef}

/-- In the scope of the header the names in attributes in front of it stand for what they stood. -/
theorem find?_push_marks (hc : c.Sound) (hreads : c.ReadsMarks marks c₀) :
    ∀ v ∈ Attribute.refsAll marks, c₀.push.find? v.name = some v :=
  fun v hv => (Context.find?_push _ _).trans (hreads.2.2.find? hc v hv)

/-- The names in the attributes stand for something behind the clauses of the header. -/
theorem found_marks (hc : c.Sound) (hc₀ : c₀.Sound) (hreads : c.ReadsMarks marks c₀)
    (hrun : c₀.push.RunWith us s.declared c₁) :
    ∀ v ∈ Attribute.refsAll marks, c₁.find? v.name ≠ none := by
  intro v hv
  obtain ⟨_, -, hrun⟩ := hrun
  refine (hrun.covers hc₀.push).find?_ne_none ?_
  rw [find?_push_marks hc hreads v hv]
  exact Option.some_ne_none v

/-- They stand for the same there if the header declares other names. -/
theorem find?_marks (hapart : l.Apart) (hc : c.Sound) (hreads : c.ReadsMarks marks c₀)
    (hrun : c₀.push.RunWith us s.declared c₁)
    (hmarks : Phrase (Rows DerivesAttribute) l.marks marks') (hinit : Phrase DerivesInit l.init s)
    (hshape : marks.map Attribute.shape = marks'.map Attribute.shape) :
    ∀ v ∈ Attribute.refsAll marks, c₁.find? v.name = some v := by
  intro v hv
  obtain ⟨_, -, hrun⟩ := hrun
  have hfind := find?_push_marks hc hreads v hv
  refine (hrun.keeps hfind fun w hw hname => ?_).1.find?.trans hfind
  have hnames := Attribute.names_eq_of_shape hshape
  obtain ⟨u, hu, heq⟩ := List.mem_map.mp (hnames ▸ List.mem_map_of_mem hv)
  exact hapart marks' s hmarks hinit u hu w hw (heq.trans hname.symm)

end

/-! ## The loop -/

theorem opens_alongside {F : Fork} {N : Naming} {K : Pairing} {r r' : Reader}
    (h : Reader.Ahead F r r') : (do advance; expect .leftParen .forKeyword : Parse Unit).Alongside F
      N K (fun _ _ _ => True) (do advance; expect .leftParen .forKeyword) r r' :=
  (Alongside.advance_of_ahead h).bind fun _ _ _ r₁ r₁' _ _ => Alongside.expect _ _ r₁ r₁'

section

variable {statement statement' : Parse Stmt} {K : Pairing} {d : Nat} {r' : Reader}

/-- The headers are read alongside up to the attributes in the second one. -/
theorem header_alongside (run : LoopRun statement r) (run' : LoopRun statement' r') (hr : r.Ready)
    (hr' : r'.Ready) (hsees : r.Sees (l.opening l.closing)) (hsees' : r'.Sees (l.opening l.marking))
    (hnames : (Naming.inScopes exact d).holds K r.context r'.context) :
    ∃ L, K.Le L ∧ run.marked.Alongside l.headerFork (.inScopes exact (d + 1)) L run'.marked ∧
      Clauses exact L run.clauses run'.clauses := by
  have hahead : Reader.Ahead l.headerFork r r' :=
    ⟨.keyword .forLoop, .symbol .leftParen :: l.header, _, _, ⟨rfl, rfl⟩, hsees, hsees'⟩
  have hheads : r.Alongside l.headerFork (.inScopes exact d) K r' :=
    ⟨hr, hr', ⟨.keyword .forLoop :: .symbol .leftParen :: l.header, _, _, ⟨rfl, rfl⟩, hsees,
      hsees'⟩, hnames⟩
  obtain ⟨K₁, hle₁, hopened, -⟩ := opens_alongside hahead hheads _ _ _ _ run.opens run'.opens
  obtain ⟨K₂, hle₂, hmarked, hp⟩ := clauses_alongside _ _ hopened.push _ _ _ _ run.reads_clauses
    run'.reads_clauses
  exact ⟨K₂, hle₁.trans hle₂, hmarked, hp⟩

/-- Behind the headers the texts are the same. -/
theorem body_alongside (h : Body exact l.fork statement statement') (hd : 2 ≤ d)
    (run : LoopRun statement r) (run' : LoopRun statement' r') (hr : run.closed.Ready)
    (hr' : run'.closed.Ready) (hsees : run.closed.Sees l.closing)
    (hsees' : run'.closed.Sees l.closing)
    (hnames : (Naming.inScopes exact (d + 1)).holds K run.closed.context run'.closed.context) :
    ∃ L, K.Le L ∧ run.done.Alongside l.fork (.inScopes exact (d + 1)) L run'.done ∧
      run.body.Alike exact L run'.body := by
  obtain ⟨hentered, hcontext, hbehind⟩ := run.entered_sees hr hsees
  obtain ⟨hentered', hcontext', hbehind'⟩ := run'.entered_sees hr' hsees'
  have hbodies : run.entered.Alongside l.fork (.inScopes exact (d + 1)) K run'.entered :=
    ⟨hentered, hentered', ⟨l.behind, _, _, .inr ⟨rfl, rfl⟩, hbehind, hbehind'⟩,
      hcontext ▸ hcontext' ▸ hnames⟩
  exact h.alongside (Nat.le_succ_of_le hd) K _ _ hbodies _ _ _ _ run.reads_body run'.reads_body

/-- The loop is read alongside, with its attributes in front of it and in its header. -/
theorem loop_alongside (hapart : exact → l.Apart) (h : Body exact l.fork statement statement')
    (hd : 2 ≤ d) {front more marks : List Attribute}
    (hr : r.Alongside l.fork (.inScopes exact d) K r')
    (hsees : r.Sees (l.marks ++ l.opening l.closing)) (hsees' : r'.Sees (l.opening l.marking))
    (hmarks : Attribute.Alike exact K front marks) (hmore : Marks r more r₁) {s s' : Stmt}
    {r₂ r₂' : Reader} (hrun : strict.statementRest statement (front ++ more) r₁ = (.ok s, r₂))
    (hrun' : strict.statementRest statement' marks r' = (.ok s', r₂')) :
    ∃ L, K.Le L ∧ r₂.Alongside l.fork (.inScopes exact d) L r₂' ∧ s.Alike exact L s' := by
  -- The attributes of the first text are read now; those of the second one tell where they end.
  obtain ⟨run', span', rfl, rfl⟩ :=
    exists_loopRun h.keeps.2 (statementRest_of_loop hsees'.kind_current hrun')
  obtain ⟨q, hq, hqcontext, hqsees, hqrun⟩ := reads_marking run' hr.right hsees'
  have hqmarks := marks_of_attributes hq.sound.closed hqrun
  obtain ⟨hclosed', hreads'⟩ := hqmarks.reads hq
  obtain ⟨hr₁, hreads⟩ := hmore.reads hr.left
  have hgo : r₁.current.kind ≠ .symbol .rightParen :=
    fun hkind => statementRest_fails (.inl hkind) s r₂ hrun
  obtain ⟨hsees₁, hclosing', hshape⟩ :=
    reads_marks hr.left hq hsees hqsees hmore hqmarks (kind_of_expect run'.closes) hgo
  obtain ⟨run, span, rfl, rfl⟩ :=
    exists_loopRun h.keeps.1 (statementRest_of_loop hsees₁.kind_current hrun)
  obtain ⟨hnil, hsame, hmarked, hclosing, hinit, us, hdeclares⟩ := reads_closing run hr₁ hsees₁
  rw [← hsame] at hmarked hclosing
  -- The clauses, then the attributes of the second text, then the bodies.
  have hframes : r.context.frames.length = d := hr.names.2
  have hnames : (Naming.inScopes exact d).holds K r₁.context r'.context :=
    ⟨hr.names.1.dropAll hreads.2.2 (hframes ▸ hd),
      (Context.Run.of_refers hreads.2.2).length_frames.trans hframes⟩
  obtain ⟨K₁, hle₁, hclauses, hp⟩ := header_alongside run run' hr₁ hr.right hsees₁ hsees' hnames
  have hphrase := attributes_phrase hq hqsees hqrun hclosing'
  have hsound := hr.left.sound.context
  have hfound := found_marks hsound hr₁.sound.context hreads hdeclares
  obtain ⟨K₂, hle₂, hfollows, halike⟩ := late_marks hclauses.names.1 hfound
    (fun he => find?_marks (hapart he) hsound hreads hdeclares hphrase hinit hshape)
    (hqcontext ▸ hreads') hshape
  obtain ⟨K₃, hle₃, hdone, hbody⟩ := body_alongside h hd run run' hmarked hclosed' hclosing
    hclosing' ⟨hsame ▸ hfollows, hsame ▸ hclauses.names.2⟩
  have hle := hle₂.trans hle₃
  refine ⟨K₃, hle₁.trans hle, hdone.pop run.extends_scopes run'.extends_scopes, ?_⟩
  have hp := hp.mono hle
  rw [hnil, List.append_nil]
  exact .forLoop ((hmarks.mono (hle₁.trans hle)).append (halike.mono hle₃)) hp.init hp.check
    hp.update hbody

end

/-- Where the texts part, a symbol stands in neither of them, but that attributes may start. -/
theorem fork_blind {s : Symbol} (hs : s ≠ .atSign) : l.fork.Blind (.symbol s) := by
  rintro w us w' us' (⟨h, h'⟩ | ⟨h, h'⟩)
  · obtain ⟨rfl, -⟩ := List.cons.inj h'
    refine iff_of_false ?_ (by simp [Word.keyword])
    rcases l.marks_cases with hmarks | ⟨v, vs, hmarks, hkind⟩
    · rw [hmarks] at h
      obtain ⟨rfl, -⟩ := List.cons.inj h
      simp [Word.keyword]
    · rw [hmarks] at h
      obtain ⟨rfl, -⟩ := List.cons.inj h
      simpa [hkind] using hs.symm
  · obtain ⟨rfl, -⟩ := List.cons.inj h
    obtain ⟨rfl, -⟩ := List.cons.inj h'
    exact Iff.rfl

/-- The texts part in front of the loop, and behind the header they are the same. -/
theorem atLoops (hapart : exact → l.Apart) : l.fork.AtLoops exact where
  close := fork_blind (by simp)
  semicolon := fork_blind (by simp)
  joins := by
    intro statement statement' h d hd K front more marks r r₁ r' hr hfork hmarks hmore s s' r₂ r₂'
      hrun hrun'
    obtain ⟨_, _, ⟨rfl, rfl⟩ | ⟨rfl, rfl⟩, hsees, hsees'⟩ := hfork
    · exact loop_alongside hapart h hd hr hsees hsees' hmarks hmore hrun hrun'
    · exact absurd hrun' (statementRest_fails (.inr hsees'.kind_current) s' r₂')

end MarkedLoop

end LoopNest
