import LoopNest.Proofs.Grammar.Ensures
import LoopNest.Proofs.Grammar.Keeps

/-!
# Reading up to the first error

A reader without recovery stops at the first error. The grammar does the same up to there, and
behind it goes on with this error noted as its first problem.

* `Parse.Follows`: a step does what another one does, up to its first error.
* `Parse.Follows.bind`, `Parse.Follows.many`, `Parse.Follows.recovering`: one rule for each way to
  build a step from others.
* `Grammar.Handling.function_follows`: the grammar follows the one that stops, one lemma for each of
  its readers.
* `Program.readStrict`: a source text is read up to its first error.
* `Program.read_of_readStrict`, `Program.starts_of_readStrict`: reading with recovery yields the same
  program, or an error that starts with the same problem.
-/

namespace LoopNest

namespace Reader

/-- No problem was noted in between. -/
def SameProblems (r s : Reader) : Prop := s.problems = r.problems

/-- The problems that were noted before are noted behind, in front of all others. -/
def MoreProblems (r s : Reader) : Prop := r.problems <+: s.problems

theorem sameProblems_invariant : Parse.Invariant SameProblems where
  refl _ := rfl
  trans h h' := Eq.trans h' h
  advance := problems_advance
  stopHere _ := rfl
  resolve _ _ _ := rfl
  inScope h := h

theorem MoreProblems.of_eq {r s : Reader} (h : s.problems = r.problems) : r.MoreProblems s :=
  ⟨[], by rw [h, List.append_nil]⟩

theorem moreProblems_invariant : Parse.Invariant MoreProblems where
  refl _ := List.prefix_refl _
  trans h h' := List.IsPrefix.trans h h'
  advance r := .of_eq (problems_advance r)
  stopHere _ := List.prefix_refl _
  resolve _ _ _ := List.prefix_refl _
  inScope h := h

end Reader

namespace Parse

variable {α β : Type}

theorem Keeps.moreProblems {step : Parse α} (h : Keeps Reader.SameProblems step) :
    Keeps Reader.MoreProblems step := fun r => .of_eq (h r)

/-- The step does what `strict` does where that one goes well. Where it fails, the step fails in the
same way, or it has noted the failure behind the problems from before. -/
structure Follows (step strict : Parse α) : Prop where
  sameProblems : Keeps Reader.SameProblems strict
  moreProblems : Keeps Reader.MoreProblems step
  ok : ∀ {r a r'}, strict r = (.ok a, r') → step r = (.ok a, r')
  error : ∀ {r failure r'}, strict r = (.error failure, r') → step r = (.error failure, r') ∨
    r.problems ++ [failure.problemAt r'] <+: (step r).2.problems

namespace Follows

variable {step strict : Parse α}

/-- A step that notes no problem follows itself. -/
theorem same (h : Keeps Reader.SameProblems step) : Follows step step :=
  ⟨h, h.moreProblems, id, .inl⟩

theorem problems_eq (h : Follows step strict) {r r' : Reader} {result : Except Failure α}
    (hrun : strict r = (result, r')) : r'.problems = r.problems := by
  have hkeep : (strict r).2.problems = r.problems := h.sameProblems r
  rwa [hrun] at hkeep

theorem pure (a : α) : Follows (Pure.pure a) (Pure.pure a) :=
  same (.pure Reader.sameProblems_invariant a)

theorem fail (cause : Problem.Cause) : Follows (Parse.fail cause : Parse α) (Parse.fail cause) :=
  same (.fail Reader.sameProblems_invariant cause)

theorem bind {next nextStrict : α → Parse β} (h : Follows step strict)
    (hnext : ∀ a, Follows (next a) (nextStrict a)) :
    Follows (step >>= next) (strict >>= nextStrict) := by
  have hmore : Keeps Reader.MoreProblems (step >>= next) :=
    h.moreProblems.bind Reader.moreProblems_invariant fun a => (hnext a).moreProblems
  refine ⟨h.sameProblems.bind Reader.sameProblems_invariant fun a => (hnext a).sameProblems, hmore,
    fun {r b r'} hrun => ?_, fun {r failure r'} hrun => ?_⟩
  · obtain ⟨a, r₁, hstrict, hrun⟩ := bind_eq_ok hrun
    rw [bind_apply, h.ok hstrict]
    exact (hnext a).ok hrun
  · rcases bind_eq_error hrun with hstrict | ⟨a, r₁, hstrict, hrun⟩
    · rcases h.error hstrict with heq | hnoted
      · left
        rw [bind_apply, heq]
      · right
        refine hnoted.trans ?_
        rw [bind_apply]
        rcases step r with ⟨second | b, r₂⟩
        · exact List.prefix_refl _
        · exact (hnext b).moreProblems r₂
    · rw [bind_apply, h.ok hstrict, ← h.problems_eq hstrict]
      exact (hnext a).error hrun

/-- A step that notes no problem comes first in both. -/
theorem after {first : Parse α} {next nextStrict : α → Parse β}
    (h : Keeps Reader.SameProblems first) (hnext : ∀ a, Follows (next a) (nextStrict a)) :
    Follows (first >>= next) (first >>= nextStrict) := (same h).bind hnext

theorem get {next nextStrict : Reader → Parse α} (h : ∀ r, Follows (next r) (nextStrict r)) :
    Follows (MonadStateOf.get >>= next) (MonadStateOf.get >>= nextStrict) :=
  ⟨fun r => (h r).sameProblems r, fun r => (h r).moreProblems r, fun {r _ _} hrun => (h r).ok hrun,
    fun {r _ _} hrun => (h r).error hrun⟩

theorem many {step strict : Parse (Option α)} (h : Follows step strict) :
    Follows (Parse.many step) (Parse.many strict) := by
  have hrounds (rounds : List Item) : Follows (manyFor step rounds) (manyFor strict rounds) := by
    induction rounds with
    | nil => exact pure []
    | cons _ rounds ih =>
      apply h.bind
      intro o
      cases o with
      | none => exact pure []
      | some a => exact ih.bind fun as => pure (a :: as)
  exact get fun r => hrounds r.remaining

/-- Either a symbol is taken and a step follows, or nothing is done. -/
theorem behindSymbol (s : Symbol) (h : Follows step strict) (otherwise : α) :
    Follows (do if ← Parse.accept s then step else Pure.pure otherwise)
      (do if ← Parse.accept s then strict else Pure.pure otherwise) := by
  apply (same (.accept Reader.sameProblems_invariant s)).bind
  intro accepted
  cases accepted with
  | false => exact pure otherwise
  | true => exact h

theorem commaSeparated (h : Follows step strict) :
    Follows (Parse.commaSeparated step) (Parse.commaSeparated strict) := by
  have hnext : Follows (do let a ← step; return some a : Parse (Option α))
      (do let a ← strict; return some a) := h.bind fun a => pure (some a)
  exact h.bind fun first =>
    (behindSymbol .comma hnext none).many.bind fun rest => pure (first :: rest)

theorem itemUnless {stop : Reader → Bool} {step strict : Reader → Parse α}
    (h : ∀ r, Follows (step r) (strict r)) :
    Follows (Parse.itemUnless stop step) (Parse.itemUnless stop strict) := by
  refine get fun r => ?_
  split
  · exact pure none
  · exact (h r).bind fun a => pure (some a)

theorem inScope (h : Follows step strict) :
    Follows (Parse.inScope step) (Parse.inScope strict) := by
  refine ⟨h.sameProblems.inScope Reader.sameProblems_invariant,
    h.moreProblems.inScope Reader.moreProblems_invariant, fun {r a r'} hrun => ?_,
    fun {r failure r'} hrun => ?_⟩
  · rw [inScope_apply] at hrun
    obtain ⟨ha, rfl⟩ := Prod.mk.inj hrun
    rw [inScope_apply, h.ok (Prod.ext ha rfl)]
  · rw [inScope_apply] at hrun
    obtain ⟨hfailure, rfl⟩ := Prod.mk.inj hrun
    -- The problem of a failure goes by the current token, which closing a scope leaves alone.
    have hproblem (r₁ : Reader) :
        failure.problemAt { r₁ with scopes := r₁.scopes.pop } = failure.problemAt r₁ := by
      cases failure <;> rfl
    rw [hproblem, inScope_apply]
    rcases h.error (Prod.ext hfailure rfl) with heq | hnoted
    · left
      rw [heq]
    · right
      exact hnoted

/-- What is recovered from in one step ends the other one. -/
theorem recovering (h : Follows step strict) {recover : Reader → Reader}
    (hrecover : ∀ r, (recover r).problems = r.problems) :
    Follows (Parse.recovering step recover) (do return some (← strict)) := by
  have hmore : Keeps Reader.MoreProblems (Parse.recovering step recover) :=
    Grammar.Handling.recovering_keeps Reader.moreProblems_invariant
      (fun r p => List.prefix_append _ _) h.moreProblems fun r => .of_eq (hrecover r)
  refine ⟨h.sameProblems.bind Reader.sameProblems_invariant fun a =>
    .pure Reader.sameProblems_invariant (some a), hmore, fun {r o r'} hrun => ?_,
    fun {r failure r'} hrun => ?_⟩
  · obtain ⟨a, r₁, hstrict, hrun⟩ := bind_eq_ok hrun
    rw [recovering_of_ok (h.ok hstrict)]
    exact hrun
  · rcases bind_eq_error hrun with hstrict | ⟨a, r₁, -, hrun⟩
    · right
      rcases h.error hstrict with heq | hnoted
      · rw [recovering_of_error heq, hrecover, ← h.problems_eq hstrict]
        exact List.prefix_refl _
      · rcases hstep : step r with ⟨second | b, r₂⟩
        · rw [hstep] at hnoted
          rw [recovering_of_error hstep, hrecover]
          exact hnoted.trans (List.prefix_append _ _)
        · rw [hstep] at hnoted
          rw [recovering_of_ok hstep]
          exact hnoted
    · cases hrun

end Follows

end Parse

namespace Grammar

open Parse Reader

namespace Handling

/-- A second declaration is an error where the grammar notes a problem. -/
theorem declare_follows (name : String) (type : VarType) (span : Span) :
    Follows (Parse.declare name type span) (declareOnce name type span) := by
  refine ⟨fun r => ?_, fun r => ?_, fun {r v r'} hrun => ?_, fun {r failure r'} hrun => ?_⟩
  · rw [declareOnce_apply]
    split <;> rfl
  · rw [Parse.declare_apply, MoreProblems]
    dsimp only
    split
    · exact List.prefix_append _ _
    · exact List.prefix_refl _
  · rw [declareOnce_apply] at hrun
    rw [Parse.declare_apply]
    split at hrun
    · cases hrun
    · next hagain =>
      dsimp only
      rwa [if_neg hagain]
  · rw [declareOnce_apply] at hrun
    rw [Parse.declare_apply]
    split at hrun
    · next hagain =>
      obtain ⟨hfailure, rfl⟩ := Prod.mk.inj hrun
      obtain rfl := Except.error.inj hfailure
      right
      dsimp only
      rw [if_pos hagain]
      exact List.prefix_refl _
    · cases hrun

/-! ## The grammar -/

/-- One handling of errors does what another one does, up to the first error. -/
structure Follows (h strict : Handling) : Prop where
  declare : ∀ name type span,
    Parse.Follows (h.declare name type span) (strict.declare name type span)
  recovering : ∀ {α : Type} {step strictly : Parse α} {recover : Reader → Reader},
    Parse.Follows step strictly → (∀ r, (recover r).problems = r.problems) →
    Parse.Follows (h.recovering step recover) (strict.recovering strictly recover)

theorem tolerant_follows : tolerant.Follows strict :=
  ⟨declare_follows, fun h hrecover => h.recovering hrecover⟩

variable {h strict : Handling} (hh : h.Follows strict)
include hh

theorem parameter_follows (type : VarType) :
    Parse.Follows (h.parameter type) (strict.parameter type) := by
  have hR := sameProblems_invariant
  refine .after (stars_keeps hR) fun depth => .after (currentSpan_keeps hR) fun span => ?_
  apply Follows.after (Keeps.name hR _)
  intro name
  exact .after (parameterBrackets_keeps hR) fun n => hh.declare _ _ _

theorem parameterItem_follows : Parse.Follows h.parameterItem strict.parameterItem := by
  have htype := Follows.same (typeName_keeps sameProblems_invariant)
  exact Follows.behindSymbol .comma (htype.bind fun type =>
    (parameter_follows hh type).bind fun v => .pure (some v)) none

theorem parameters_follows : Parse.Follows h.parameters strict.parameters := by
  have htype := Follows.same (typeName_keeps sameProblems_invariant)
  refine .get fun r => ?_
  split
  · exact .pure []
  · refine htype.bind fun type => .get fun r' => ?_
    split
    · exact .pure []
    · exact (parameter_follows hh type).bind fun first =>
        (parameterItem_follows hh).many.bind fun rest => .pure (first :: rest)

theorem declaration_follows : Parse.Follows h.declaration strict.declaration := by
  have hR := sameProblems_invariant
  have hdeclarator (type : VarType) :
      Parse.Follows (h.declarator type) (strict.declarator type) := by
    refine .after (currentSpan_keeps hR) fun start => .after (stars_keeps hR) fun depth => ?_
    refine .after (currentSpan_keeps hR) fun nameSpan => .after (Keeps.name hR _) fun name => ?_
    apply Follows.after (arrayBrackets_keeps hR)
    intro n
    refine .after (initializer_keeps hR) fun x => (hh.declare _ _ _).bind fun v => ?_
    exact .after (spanFrom_keeps hR start) fun span => .pure _
  refine .after (typeName_keeps hR) fun type => (hdeclarator type).commaSeparated.bind fun ds => ?_
  exact .after (Keeps.expect hR _ _) fun _ => .pure ds

theorem initClause_follows : Parse.Follows h.initClause strict.initClause := by
  have hR := sameProblems_invariant
  refine .after (currentSpan_keeps hR) fun start => .after (Keeps.accept hR _) fun accepted => ?_
  cases accepted with
  | true => exact .pure _
  | false =>
    refine .get fun r => ?_
    split
    · apply (declaration_follows hh).bind
      intro ds
      exact .after (spanFrom_keeps hR start) fun span => .pure _
    · exact .after (expression_keeps hR) fun x => .after (Keeps.expect hR _ _) fun _ => .pure _

section

variable {statement strictly : Parse Stmt} (hs : Parse.Follows statement strictly)
include hs

theorem block_follows : Parse.Follows (h.block statement) (strict.block strictly) := by
  have hR := sameProblems_invariant
  have hitem : Parse.Follows (h.blockItem statement) (strict.blockItem strictly) :=
    .itemUnless fun r => hh.recovering hs (hR.recoverStatement _)
  apply Follows.after (currentSpan_keeps hR)
  intro start
  refine .after (Keeps.expect hR _ _) fun _ => hitem.many.inScope.bind fun items => ?_
  exact .after (Keeps.expect hR _ _) fun _ => .after (spanFrom_keeps hR start) fun span => .pure _

theorem forRest_follows : Parse.Follows (h.forRest statement) (strict.forRest strictly) := by
  have hR := sameProblems_invariant
  apply (initClause_follows hh).bind
  intro init
  refine .after (clause_keeps hR _) fun check => .after (Keeps.expect hR _ _) fun _ => ?_
  apply Follows.after (clause_keeps hR _)
  intro update
  apply Follows.after (headerAttributes_keeps hR)
  intro marks
  exact .after (Keeps.expect hR _ _) fun _ => hs.bind fun body => .pure _

theorem forStatement_follows (marks : List Attribute) :
    Parse.Follows (h.forStatement statement marks) (strict.forStatement strictly marks) := by
  have hR := sameProblems_invariant
  have hrest := (forRest_follows hh hs).inScope
  refine .after (currentSpan_keeps hR) fun start => .after (Keeps.advance hR) fun _ => ?_
  refine .after (Keeps.expect hR _ _) fun _ => hrest.bind fun p => ?_
  exact .after (spanFrom_keeps hR start) fun span => .pure _

theorem statementRest_follows (marks : List Attribute) :
    Parse.Follows (h.statementRest statement marks) (strict.statementRest strictly marks) := by
  have hR := sameProblems_invariant
  refine .after (currentSpan_keeps hR) fun start => .get fun r => ?_
  split
  · exact forStatement_follows hh hs marks
  · exact (block_follows hh hs).bind fun b => .same (headed_keeps hR start marks _)
  · refine .after (condition_keeps hR _) fun c => hs.bind fun thenBranch => ?_
    apply Follows.after (Keeps.acceptKind hR _)
    intro accepted
    cases accepted with
    | true => exact hs.bind fun elseBranch => .same (headed_keeps hR start marks _)
    | false => exact .same (headed_keeps hR start marks _)
  · apply Follows.after (condition_keeps hR _)
    intro c
    exact hs.bind fun body => .same (headed_keeps hR start marks _)
  · refine .same ((Keeps.advance hR).bind hR fun _ => (optionalValue_keeps hR).bind hR fun _ => ?_)
    exact (Keeps.expect hR _ _).bind hR fun _ => headed_keeps hR start marks _
  · exact .same ((Keeps.advance hR).bind hR fun _ => headed_keeps hR start marks _)
  · exact (declaration_follows hh).bind fun ds => .same (headed_keeps hR start marks _)
  · refine .same ((expression_keeps hR).bind hR fun x => ?_)
    exact (Keeps.expect hR _ _).bind hR fun _ => headed_keeps hR start marks _

end

theorem statement_follows : Parse.Follows h.statement strict.statement := by
  have hrounds (rounds : List Item) :
      Parse.Follows (h.statementFor rounds) (strict.statementFor rounds) := by
    induction rounds with
    | nil => exact .fail _
    | cons _ rounds ih =>
      have hmarks := Follows.same (attributes_keeps sameProblems_invariant)
      exact hmarks.bind fun marks => statementRest_follows hh ih marks
  exact .get fun r => hrounds r.remaining

theorem functionRest_follows : Parse.Follows h.functionRest strict.functionRest := by
  have hR := sameProblems_invariant
  refine .after (Keeps.expect hR _ _) fun _ => (parameters_follows hh).bind fun params => ?_
  apply Follows.after (Keeps.expect hR _ _)
  intro _
  exact (block_follows hh (statement_follows hh)).bind fun b => .pure _

theorem function_follows : Parse.Follows h.function strict.function := by
  have hR := sameProblems_invariant
  refine .after (attributes_keeps hR) fun marks => .after (currentSpan_keeps hR) fun start => ?_
  apply Follows.after (typeName_keeps hR)
  intro type
  refine .after (Keeps.name hR _) fun name => (functionRest_follows hh).inScope.bind fun p => ?_
  exact .after (spanFrom_keeps hR start) fun span => .pure _

theorem functions_follows : Parse.Follows h.functions strict.functions := by
  have hitem : Parse.Follows h.programItem strict.programItem :=
    .itemUnless fun _ => hh.recovering (function_follows hh) sameProblems_invariant.recoverFunction
  exact hitem.many.bind fun items => .pure _

end Handling

/-- The grammar follows the one that ends at the first error. -/
theorem functions_follows : Parse.Follows functions Handling.strict.functions := by
  rw [← Handling.functions_tolerant]
  exact Handling.functions_follows Handling.tolerant_follows

end Grammar

/-! ## Programs -/

/-- One error comes to the same as the other one, or the other one has more problems behind its
problems. -/
def ReadError.Starts : ReadError → ReadError → Prop
  | fault f, fault g => f = g
  | problems ps, problems qs => ps <+: qs
  | _, _ => False

theorem Reader.problems_ofSource {source : String} {r : Reader} (h : ofSource source = .ok r) :
    r.problems = [] := by
  unfold ofSource at h
  split at h <;> cases h <;> rfl

namespace Program

/-- The program that a source text is, or its first error. -/
def readStrict (source : String) : Except ReadError Program :=
  match Reader.ofSource source with
  | .error f => .error (.fault f)
  | .ok r =>
    match Grammar.Handling.strict.functions r with
    | (.error failure, r') => .error (.problems [failure.problemAt r'])
    | (.ok functions, r') => .ok ⟨functions, r'.vars, r.current.span.merge r'.previous.span⟩

variable {source : String} {p : Program} {e : ReadError}

/-- Where no error is met, recovery changes nothing. -/
theorem read_of_readStrict (h : readStrict source = .ok p) : read source = .ok p := by
  unfold readStrict at h
  unfold read
  cases hr : Reader.ofSource source with
  | error f => simp [hr] at h
  | ok r =>
    rcases hstrict : Grammar.Handling.strict.functions r with ⟨failure | fs, r'⟩
    · simp [hr, hstrict] at h
    · have hfollows := Grammar.functions_follows
      have hclean : r'.problems = [] :=
        (hfollows.problems_eq hstrict).trans (Reader.problems_ofSource hr)
      simp only [hr, hstrict] at h
      simp only [hfollows.ok hstrict, hclean, List.isEmpty_nil, if_true]
      exact h

/-- An error that is met is the first of all that are noted. -/
theorem starts_of_readStrict (h : readStrict source = .error e) :
    ∃ e', read source = .error e' ∧ e.Starts e' := by
  unfold readStrict at h
  unfold read
  cases hr : Reader.ofSource source with
  | error f =>
    simp only [hr] at h
    obtain rfl := Except.error.inj h
    exact ⟨_, rfl, rfl⟩
  | ok r =>
    rcases hstrict : Grammar.Handling.strict.functions r with ⟨failure | fs, r'⟩
    · simp only [hr, hstrict] at h
      obtain rfl := Except.error.inj h
      have hclean := Reader.problems_ofSource hr
      have hfollows := Grammar.functions_follows.error hstrict
      rcases hrun : Grammar.functions r with ⟨second | gs, r₁⟩
      · simp only [hrun]
        refine ⟨_, rfl, ?_⟩
        rw [hrun, hclean] at hfollows
        rcases hfollows with heq | hnoted
        · obtain ⟨hsecond, rfl⟩ := Prod.mk.inj heq
          obtain rfl := Except.error.inj hsecond
          rw [(Grammar.functions_follows.problems_eq hstrict).trans hclean]
          exact List.prefix_refl _
        · exact hnoted.trans (List.prefix_append _ _)
      · rw [hrun, hclean] at hfollows
        rcases hfollows with heq | hnoted
        · cases heq
        · have hne : r₁.problems.isEmpty = false :=
            List.isEmpty_eq_false_iff.mpr (List.ne_nil_of_mem (hnoted.subset List.mem_cons_self))
          simp only [hrun, hne]
          exact ⟨_, rfl, hnoted⟩
    · simp [hr, hstrict] at h

end Program

end LoopNest
