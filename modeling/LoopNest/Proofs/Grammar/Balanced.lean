import LoopNest.Proofs.Grammar.Keeps
import LoopNest.Proofs.Variable.Frames

/-!
# Balanced scopes

Behind a construct the scope is open that was open in front of it, whether the construct was read
or not.

* `Reader.SameScope`: the same scope is open, inside the same ones.
* `Reader.Extends`: the scopes of a reader come from those of another one; every run keeps this
  (`Reader.extends_invariant`).
* `Parse.Starts`: the readers at which the rounds of a repeated step start.
* `Grammar.scopes_balanced`: each construct leaves the scope that it found, and so each statement
  of a block and each function starts in the same one.
-/

namespace LoopNest

/-! ## Scopes of readers -/

namespace Reader

/-- The same scope is open, and the scopes around it are the same. -/
structure SameScope (r s : Reader) : Prop where
  current_eq : s.scopes.current = r.scopes.current
  enclosing_eq : r.scopes.WellFormed → s.scopes.enclosing = r.scopes.enclosing

/-- The scopes of `s` come from those of `r` by steps that closed all scopes that they opened. -/
structure Extends (r s : Reader) : Prop where
  scopes : r.scopes.Extends s.scopes
  wellFormed : r.scopes.WellFormed → s.scopes.WellFormed

theorem Extends.sameScope {r s : Reader} (h : r.Extends s) : r.SameScope s := by
  refine ⟨h.scopes.current_eq, fun hr => ?_⟩
  have houter : ∀ i ≤ r.scopes.current, s.scopes.outer? i = r.scopes.outer? i := by
    intro i hi
    exact h.scopes.outer_eq i (Nat.lt_of_le_of_lt hi hr.current_lt)
  have haround := Scopes.around_congr hr (h.wellFormed hr) houter
  unfold Scopes.enclosing
  rw [h.scopes.current_eq]
  exact haround

theorem extends_of_scopes {r s : Reader} (h : s.scopes = r.scopes) : r.Extends s := by
  refine ⟨?_, fun hr => ?_⟩
  · rw [h]
    exact .refl _
  · rwa [h]

theorem extends_of_bind {r s : Reader} {i : Nat} {name : String} {v : VarRef}
    (h : s.scopes = r.scopes.bind i name v) : r.Extends s := by
  refine ⟨?_, fun hr => ?_⟩
  · rw [h]
    exact .bind i name v
  · rw [h]
    exact hr.bind i name v

theorem extends_invariant : Parse.Invariant Extends where
  refl r := extends_of_scopes rfl
  trans h h' := ⟨h.scopes.trans h'.scopes, fun hr => h'.wellFormed (h.wellFormed hr)⟩
  advance r := by
    apply extends_of_scopes
    unfold Reader.advance
    split <;> rfl
  stopHere r := extends_of_scopes rfl
  resolve name span r := by
    rw [Parse.resolve_apply]
    cases h : r.scopes.lookup name with
    | some v =>
      apply extends_of_scopes
      simp only [Scopes.resolve, h]
    | none =>
      apply extends_of_bind
      simp only [Scopes.resolve, h]
      rfl
  inScope h := ⟨h.scopes.pop, fun hr => (h.wellFormed hr.push).pop⟩

theorem tolerant_extends : Grammar.Handling.tolerant.Keeps Extends where
  declare name type span r := by
    show r.Extends (Parse.declare name type span r).2
    rw [Parse.declare_apply]
    apply extends_of_bind
    dsimp only
    split <;> rfl
  recovering hstep hrecover := by
    have hproblem (r : Reader) (p : Problem) : r.Extends (r.addProblem p) := extends_of_scopes rfl
    exact Grammar.Handling.recovering_keeps extends_invariant hproblem hstep hrecover

theorem strict_extends : Grammar.Handling.strict.Keeps Extends where
  declare name type span r := by
    show r.Extends (Grammar.Handling.declareOnce name type span r).2
    rw [Grammar.Handling.declareOnce_apply]
    split
    · exact extends_invariant.refl r
    · exact extends_of_bind rfl
  recovering hstep _ :=
    hstep.bind extends_invariant fun a => .pure extends_invariant (some a)

end Reader

/-! ## Rounds -/

namespace Parse

variable {α : Type}

/-- The readers at which the rounds of a step start that is repeated from `r` on. -/
inductive Starts (step : Parse (Option α)) (r : Reader) : Reader → Prop
  | first : Starts step r r
  | next {s : Reader} {a : α} (h : Starts step r s) (hround : (step s).1 = .ok (some a)) :
      Starts step r (step s).2

/-- What each round keeps, all rounds keep. -/
theorem Keeps.starts {R : Reader → Reader → Prop} (hR : Invariant R) {step : Parse (Option α)}
    (h : Keeps R step) {r s : Reader} (hs : step.Starts r s) : R r s := by
  induction hs with
  | first => exact hR.refl r
  | next _ _ ih => exact hR.trans ih (h _)

end Parse

namespace Grammar

open Parse

/-! ## Constructs -/

/-- The readers of statements: of whole ones, and of those inside of others, at most one level for
each of the rounds. -/
def statementWithin : Option (List Item) → Parse Stmt
  | none => statement
  | some rounds => statementFor rounds

theorem statementWithin_extends (rounds : Option (List Item)) :
    Keeps Reader.Extends (statementWithin rounds) := by
  cases rounds with
  | none =>
    rw [statementWithin, ← Handling.statement_tolerant]
    exact Handling.statement_keeps Reader.extends_invariant Reader.tolerant_extends
  | some rounds =>
    rw [statementWithin, ← Handling.statementFor_tolerant]
    exact Handling.statementFor_keeps Reader.extends_invariant Reader.tolerant_extends rounds

theorem function_extends : Keeps Reader.Extends function := by
  rw [← Handling.function_tolerant]
  exact Handling.function_keeps Reader.extends_invariant Reader.tolerant_extends

/-- **Scopes are balanced.** Whatever the reader and whether a construct can be read or not, the
scope that is open behind it is the one that was open in front of it: for functions, blocks, loops,
all other statements, declarations and expressions, at any depth. So each statement of a block
starts in the scope of the first one, and each function in the scope of the first one, whatever went
wrong before. -/
theorem scopes_balanced (r : Reader) :
    r.SameScope (function r).2 ∧ r.SameScope (declaration r).2 ∧ r.SameScope (expression r).2 ∧
    (∀ rounds, let inner := statementWithin rounds
      r.SameScope (inner r).2 ∧ r.SameScope (block inner r).2 ∧
      (∀ marks, r.SameScope (forStatement inner marks r).2) ∧
      ∀ s, (blockItem inner).Starts r s → r.SameScope s) ∧
    ∀ s, programItem.Starts r s → r.SameScope s := by
  have hR := Reader.extends_invariant
  have hh := Reader.tolerant_extends
  refine ⟨(function_extends r).sameScope, ?_, (expression_keeps hR r).sameScope, ?_, ?_⟩
  · rw [← Handling.declaration_tolerant]
    exact (Handling.declaration_keeps hR hh r).sameScope
  · intro rounds inner
    have hinner : Keeps Reader.Extends inner := statementWithin_extends rounds
    refine ⟨(hinner r).sameScope, ?_, fun marks => ?_, fun s hs => ?_⟩
    · rw [← Handling.block_tolerant]
      exact (Handling.block_keeps hR hh hinner r).sameScope
    · rw [← Handling.forStatement_tolerant]
      exact (Handling.forStatement_keeps hR hh hinner marks r).sameScope
    · have hitem : Keeps Reader.Extends (blockItem inner) :=
        Handling.blockItem_keeps hR hh hinner
      exact (hitem.starts hR hs).sameScope
  · intro s hs
    rw [← Handling.programItem_tolerant] at hs
    exact ((Handling.programItem_keeps hR hh).starts hR hs).sameScope

end Grammar

end LoopNest
