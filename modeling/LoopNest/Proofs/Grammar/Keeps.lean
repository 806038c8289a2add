import LoopNest.Proofs.Grammar.Closed

/-!
# What every run keeps

A relation between the reader before a run and the one behind it, whether the run goes well or
fails. If it holds for each of the smallest steps then it holds for the whole grammar.

* `Parse.Invariant`: the smallest steps keep the relation.
* `Parse.Keeps`: a step keeps it.
* `Parse.Invariant.closed`: this is one of the properties that the whole grammar has if the smallest
  steps have it.
* `Parse.FailsAs`: what is known of the problem with which a step fails.
* `Parse.Keeps.recovering`: going on behind a failure keeps the relation if noting this problem does.
* `Grammar.Handling.Keeps`: the two readers that handle errors keep the relation.
-/

namespace LoopNest

/-- A failure is reported in the same way whatever scope is open. -/
theorem Failure.problemAt_scopes (failure : Failure) (r : Reader) (scopes : Scopes) :
    failure.problemAt { r with scopes } = failure.problemAt r := by
  cases failure <;> rfl

namespace Parse

variable {α β : Type}

/-- The smallest steps keep the relation, and so do two steps one after the other and what happens
between the opening and the closing of a scope. -/
structure Invariant (R : Reader → Reader → Prop) : Prop where
  refl : ∀ r, R r r
  trans : ∀ {r s t}, R r s → R s t → R r t
  advance : ∀ r : Reader, R r r.advance.2
  stopHere : ∀ r : Reader, R r r.stopHere
  resolve : ∀ name span (r : Reader), R r (Parse.resolve name span r).2
  inScope : ∀ {r s : Reader}, R { r with scopes := r.scopes.push } s →
    R r { s with scopes := s.scopes.pop }

/-- The reader behind the step is related to the one before it. -/
def Keeps (R : Reader → Reader → Prop) (step : Parse α) : Prop := ∀ r, R r (step r).2

/-! ## Passing over tokens -/

namespace Invariant

variable {R : Reader → Reader → Prop} (hR : Invariant R)
include hR

theorem skip (r : Reader) : R r r.skip := by
  have hadvance := hR.advance r
  unfold Reader.skip
  split
  · next hrun => rwa [hrun] at hadvance
  · next hrun =>
    rw [hrun] at hadvance
    exact hR.trans hadvance (hR.stopHere _)

theorem skipFor (stop : Reader → Bool) (rounds : List Item) (r : Reader) :
    R r (Reader.skipFor stop rounds r) := by
  induction rounds generalizing r with
  | nil => exact hR.refl r
  | cons _ rounds ih =>
    unfold Reader.skipFor
    split
    · exact hR.refl r
    · exact hR.trans (hR.skip r) (ih r.skip)

theorem recoverStatement (start : Span) (r : Reader) : R r (Grammar.recoverStatement start r) := by
  unfold Grammar.recoverStatement
  dsimp only
  split
  · exact hR.trans (hR.skip r) (hR.skipFor _ _ r.skip)
  · exact hR.skipFor _ _ r

theorem recoverFunction (r : Reader) : R r (Grammar.recoverFunction r) := by
  unfold Grammar.recoverFunction
  dsimp only
  split
  · exact hR.skipFor _ _ r
  · exact hR.trans (hR.skip r) (hR.skipFor _ _ r.skip)

end Invariant

/-! ## Building steps -/

namespace Keeps

variable {R : Reader → Reader → Prop} (hR : Invariant R)
include hR

theorem pure (a : α) : Keeps R (Pure.pure a : Parse α) := fun r => hR.refl r

theorem fail (cause : Problem.Cause) : Keeps R (Parse.fail cause : Parse α) := fun r => hR.refl r

theorem bind {step : Parse α} {next : α → Parse β} (h : Keeps R step)
    (hnext : ∀ a, Keeps R (next a)) : Keeps R (step >>= next) := by
  intro r
  have hstep := h r
  rw [bind_apply]
  rcases hrun : step r with ⟨result, r₁⟩
  rw [hrun] at hstep
  cases result with
  | error failure => exact hstep
  | ok a => exact hR.trans hstep (hnext a r₁)

theorem advance : Keeps R Parse.advance := by
  intro r
  rw [advance_apply]
  exact hR.advance r

theorem inScope {step : Parse α} (h : Keeps R step) : Keeps R (Parse.inScope step) := by
  intro r
  exact hR.inScope (h { r with scopes := r.scopes.push })

end Keeps

/-- What the smallest steps keep, all steps keep that are put together from them. -/
theorem Invariant.closed {R : Reader → Reader → Prop} (hR : Invariant R) :
    Closed fun _ step => Keeps R step where
  pure := Keeps.pure hR
  fail cause _ := Keeps.fail hR cause
  bind := Keeps.bind hR
  get h r := h r r
  advance := Keeps.advance hR
  resolve := hR.resolve
  inScope := Keeps.inScope hR

namespace Keeps

variable {R : Reader → Reader → Prop} (hR : Invariant R)
include hR

theorem acceptKind (k : Token.Kind) : Keeps R (Parse.acceptKind k) := hR.closed.acceptKind k

theorem accept (s : Symbol) : Keeps R (Parse.accept s) := hR.closed.accept s

theorem expect (s : Symbol) (place : Place) : Keeps R (Parse.expect s place) :=
  hR.closed.expect s place

theorem name (named : Named) : Keeps R (Parse.name named) := hR.closed.name named

theorem many {step : Parse (Option α)} (h : Keeps R step) : Keeps R (Parse.many step) :=
  hR.closed.many h

end Keeps

/-! ## Failures -/

/-- If the step fails then with a problem that `Q` allows for the reader that it leaves behind. -/
def FailsAs (Q : Reader → Problem → Prop) (step : Parse α) : Prop :=
  ∀ r failure r', step r = (.error failure, r') → Q r' (failure.problemAt r')

section

variable {Q : Reader → Problem → Prop}

/-- All failures come from the current token, where something is missing or cannot be passed over. -/
theorem failsAs_closed
    (hmissing : ∀ r cause, cause.isRedefinition = false → Q r (r.problemHere cause))
    (hfault : ∀ r f, Q r ((Failure.fault f).problemAt r))
    (hscopes : ∀ (r : Reader) p scopes, Q r p → Q { r with scopes } p) :
    Closed fun _ step => FailsAs Q step where
  pure a r failure r' hrun := by cases hrun
  fail cause hcause r failure r' hrun := by
    cases hrun
    exact hmissing r cause hcause
  bind h hnext r failure r' hrun := by
    rcases bind_eq_error hrun with hstep | ⟨a, r₁, -, hrun⟩
    · exact h r failure r' hstep
    · exact hnext a r₁ failure r' hrun
  get h r := h r r
  advance r failure r' hrun := by
    rw [advance_apply] at hrun
    cases hadvance : r.advance.1 with
    | ok _ =>
      rw [hadvance] at hrun
      cases hrun
    | error f =>
      rw [hadvance] at hrun
      cases hrun
      exact hfault _ f
  resolve name span r failure r' hrun := by
    rw [resolve_apply] at hrun
    cases hrun
  inScope {_ step} h r failure r' hrun := by
    rw [inScope_apply] at hrun
    rcases hstep : step { r with scopes := r.scopes.push } with ⟨result, s⟩
    rw [hstep] at hrun
    cases hrun
    rw [Failure.problemAt_scopes]
    exact hscopes s _ _ (h _ failure s hstep)

theorem declare_failsAs (name : String) (type : VarType) (span : Span) :
    FailsAs Q (Parse.declare name type span) := by
  intro r failure r' hrun
  rw [declare_apply] at hrun
  cases hrun

/-- Behind a step that fails reading goes on. -/
theorem recovering_failsAs (step : Parse α) (recover : Reader → Reader) :
    FailsAs Q (Parse.recovering step recover) := by
  intro r failure r' hrun
  rcases hstep : step r with ⟨second | a, r₁⟩
  · rw [recovering_of_error hstep] at hrun
    cases hrun
  · rw [recovering_of_ok hstep] at hrun
    cases hrun

/-- A step that is recovered from keeps a relation if noting the problem that it fails with does. -/
theorem Keeps.recovering {R : Reader → Reader → Prop} (hR : Invariant R)
    (hproblem : ∀ r p, Q r p → R r (r.addProblem p)) {step : Parse α} {recover : Reader → Reader}
    (hstep : Keeps R step) (hfails : FailsAs Q step) (hrecover : ∀ r, R r (recover r)) :
    Keeps R (Parse.recovering step recover) := by
  intro r
  have hkeep := hstep r
  rcases hrun : step r with ⟨failure | a, r₁⟩
  · rw [hrun] at hkeep
    rw [recovering_of_error hrun]
    have hnoted := hproblem r₁ _ (hfails r failure r₁ hrun)
    exact hR.trans hkeep (hR.trans hnoted (hrecover _))
  · rw [hrun] at hkeep
    rw [recovering_of_ok hrun]
    exact hkeep

end

end Parse

namespace Grammar

open Parse

variable {R : Reader → Reader → Prop} (hR : Invariant R)
include hR

/-! ## Expressions, attributes and types -/

theorem expression_keeps : Keeps R expression := expression_closed hR.closed

theorem spanFrom_keeps (start : Span) : Keeps R (spanFrom start) := spanFrom_closed hR.closed start

theorem currentSpan_keeps : Keeps R currentSpan := currentSpan_closed hR.closed

theorem oneAttribute_keeps : Keeps R oneAttribute := oneAttribute_closed hR.closed

theorem attributes_keeps : Keeps R attributes := attributes_closed hR.closed

theorem stars_keeps : Keeps R stars := stars_closed hR.closed

theorem typeName_keeps : Keeps R typeName := typeName_closed hR.closed

theorem parameterBrackets_keeps : Keeps R parameterBrackets := parameterBrackets_closed hR.closed

theorem arrayBrackets_keeps : Keeps R arrayBrackets := arrayBrackets_closed hR.closed

theorem initializer_keeps : Keeps R initializer := initializer_closed hR.closed

/-! ## Parts of statements -/

theorem clause_keeps (stops : List Symbol) : Keeps R (clause stops) :=
  clause_closed hR.closed stops

theorem headerAttributes_keeps : Keeps R headerAttributes := headerAttributes_closed hR.closed

theorem condition_keeps (place : Place) : Keeps R (condition place) :=
  condition_closed hR.closed place

theorem optionalValue_keeps : Keeps R optionalValue := optionalValue_closed hR.closed

/-- The end of a statement, where its head is put to it. -/
theorem headed_keeps (start : Span) (marks : List Attribute) (f : StmtHead → Stmt) :
    Keeps R (do
      let head ← (do return ⟨← spanFrom start, marks⟩ : Parse StmtHead)
      return f head : Parse Stmt) :=
  headed_closed hR.closed start marks f

/-! ## Readers that handle errors -/

namespace Handling

omit hR in
/-- A second declaration is handled in a way that keeps the relation, and so is a step that fails
if the step itself and what follows it keep the relation. -/
structure Keeps (h : Handling) (R : Reader → Reader → Prop) : Prop where
  declare : ∀ name type span, Parse.Keeps R (h.declare name type span)
  recovering : ∀ {α : Type} {step : Parse α} {recover : Reader → Reader}, Parse.Keeps R step →
    (∀ r, R r (recover r)) → Parse.Keeps R (h.recovering step recover)

/-- A step that is recovered from keeps a relation that noting a problem keeps. -/
theorem recovering_keeps (hproblem : ∀ (r : Reader) p, R r (r.addProblem p)) {α : Type}
    {step : Parse α} {recover : Reader → Reader} (hstep : Parse.Keeps R step)
    (hrecover : ∀ r, R r (recover r)) : Parse.Keeps R (Parse.recovering step recover) :=
  .recovering hR (Q := fun _ _ => True) (fun r p _ => hproblem r p) hstep
    (fun _ _ _ _ => trivial) hrecover

omit hR in
/-- Where errors are noted, none of the two readers fails. -/
theorem tolerant_failsAs {Q : Reader → Problem → Prop} :
    Handling.tolerant.Closed fun _ step => FailsAs Q step where
  declare := declare_failsAs
  statement _ _ := recovering_failsAs _ _
  function _ := recovering_failsAs _ _

variable {h : Handling} (hh : h.Keeps R)
include hh

theorem Keeps.closed : h.Closed fun _ step => Parse.Keeps R step where
  declare := hh.declare
  statement start hs := hh.recovering hs (hR.recoverStatement start)
  function hs := hh.recovering hs hR.recoverFunction

theorem Keeps.admits : h.Admits fun _ step => Parse.Keeps R step :=
  (hh.closed hR).admits hR.closed

theorem declaration_keeps : Parse.Keeps R h.declaration :=
  declaration_closed hR.closed (hh.admits hR)

section

variable {statement : Parse Stmt} (hs : Parse.Keeps R statement)
include hs

theorem blockItem_keeps : Parse.Keeps R (h.blockItem statement) :=
  blockItem_closed hR.closed (hh.admits hR) hs

theorem block_keeps : Parse.Keeps R (h.block statement) :=
  block_closed hR.closed (hh.admits hR) hs

theorem forRest_keeps : Parse.Keeps R (h.forRest statement) :=
  forRest_closed hR.closed (hh.admits hR) hs

theorem forStatement_keeps (marks : List Attribute) :
    Parse.Keeps R (h.forStatement statement marks) :=
  forStatement_closed hR.closed (hh.admits hR) hs marks

end

theorem statementFor_keeps (rounds : List Item) : Parse.Keeps R (h.statementFor rounds) :=
  statementFor_closed hR.closed (hh.admits hR) rounds

theorem statement_keeps : Parse.Keeps R h.statement :=
  statement_closed hR.closed (hh.admits hR)

theorem functionRest_keeps : Parse.Keeps R h.functionRest :=
  functionRest_closed hR.closed (hh.admits hR)

theorem function_keeps : Parse.Keeps R h.function :=
  function_closed hR.closed (hh.admits hR)

theorem programItem_keeps : Parse.Keeps R h.programItem :=
  programItem_closed hR.closed (hh.admits hR)

end Handling

end Grammar

end LoopNest
