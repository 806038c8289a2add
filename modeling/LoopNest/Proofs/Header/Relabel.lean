import LoopNest.Header.Arithmetic
import LoopNest.Proofs.Stmt.Relabel

/-!
# Headers with other numbers of variables

The facts in a header depend neither on spans nor on the numbers of variables, as long as different
variables have different numbers. Neither does the arithmetic that is made of them.

* `Loop.describe_relabel`: the facts in a header with other numbers.
* `Descriptor.shape`: the facts without places and numbers.
* `Descriptor.tripCount_relabel`, `Descriptor.valueAt_relabel`: the arithmetic of the facts with
  other numbers.
-/

namespace LoopNest

/-! ## Where a variable stands -/

namespace Expr

variable {σ : Nat → Nat}

theorem span_relabel (x : Expr) : (x.relabel σ).span = .none := by
  cases x <;> rfl

theorem span_startNode_relabel : ∀ x : Expr, (x.relabel σ).startNode.span = .none
  | unaryBehind _ _ x | binary _ _ x _ | subscript _ x _ => span_startNode_relabel x
  | var _ _ | literal _ _ | unaryBefore _ _ _ | parentheses _ _ | call _ _ _ => rfl

theorem isVar_relabel (hσ : Function.Injective σ) (id : Nat) (x : Expr) :
    (x.relabel σ).isVar (σ id) = x.isVar id := by
  cases x with
  | var s v =>
    rw [Bool.eq_iff_iff]
    simp only [relabel, isVar, VarRef.relabel, beq_iff_eq]
    exact hσ.eq_iff
  | _ => rfl

theorem isUnaryOn_relabel (hσ : Function.Injective σ) (id : Nat) (x : Expr) :
    (x.relabel σ).isUnaryOn (σ id) = x.isUnaryOn id := by
  cases x with
  | unaryBefore s op y => exact isVar_relabel hσ id y
  | unaryBehind s op y => exact isVar_relabel hσ id y
  | _ => rfl

end Expr

def Side.relabel (σ : Nat → Nat) : Side → Side
  | left x => left (x.relabel σ)
  | right x => right (x.relabel σ)
  | neither => neither

theorem Expr.side_relabel {σ : Nat → Nat} (hσ : Function.Injective σ) (id : Nat) (x : Expr) :
    (x.relabel σ).side (σ id) = (x.side id).relabel σ := by
  cases x with
  | binary s op l r =>
    simp only [relabel, side, sideOf, isVar_relabel hσ]
    split
    · rfl
    · split <;> rfl
  | _ => rfl

/-! ## Facts in a header -/

def Rejection.unplaced (r : Rejection) : Rejection := { r with span := .none }

def Bound.relabel (σ : Numbering) (b : Bound) : Bound := ⟨b.value.relabel σ.vars, b.onRight⟩

def Step.relabel (σ : Numbering) (s : Step) : Step := ⟨s.op, s.value.map (Expr.relabel σ.vars)⟩

def Descriptor.relabel (σ : Numbering) (d : Descriptor) : Descriptor where
  iterator := d.iterator.map (Declarator.relabel σ)
  comparison := d.comparison
  bound := d.bound.map (Bound.relabel σ)
  step := d.step.map (Step.relabel σ)
  failure := d.failure.map Rejection.unplaced

def Loop.relabel (σ : Numbering) (l : Loop) : Loop :=
  ⟨l.init.relabel σ, l.check.relabel σ, l.update.relabel σ, l.body.relabel σ⟩

/-- A broken rule without its place. -/
def Broken.unplaced (b : Broken) : Broken := (b.1, .none)

section

variable {σ : Numbering} {vars vars' : VarTable}

theorem Stmt.span_relabel (s : Stmt) : (s.relabel σ).span = .none := by
  rw [span, head_relabel]
  rfl

theorem iteratorOf_relabel {s : Stmt} (hs : ∀ v ∈ s.firsts, v.KeepsType σ vars vars') :
    iteratorOf vars' (s.relabel σ) =
      ((iteratorOf vars s).map (Declarator.relabel σ)).mapError Broken.unplaced := by
  have hfirst : ∀ d ∈ ((s.declarators?).getD []).take 1, d.var.KeepsType σ vars vars' :=
    fun d hd => hs d.var (by rw [Stmt.firsts_eq]; exact List.mem_append_left _ (List.mem_map_of_mem hd))
  unfold iteratorOf
  rw [Stmt.declarators?_relabel]
  cases hds : s.declarators? with
  | none => rw [Stmt.span_relabel]; rfl
  | some ds =>
    rw [hds] at hfirst
    match ds, hfirst with
    | [], _ => simp only [Option.map_some, List.map_nil, Stmt.span_relabel]; rfl
    | _ :: _ :: _, _ => rfl
    | [d], hfirst =>
      have htype : vars'.type? (σ.vars d.var.id) = vars.type? d.var.id :=
        hfirst d List.mem_cons_self
      simp only [Option.map_some, List.map_cons, List.map_nil, Declarator.relabel, VarRef.relabel,
        htype]
      split <;> rfl

theorem comparisonOf_relabel (name : String) (s : Stmt) :
    comparisonOf name (s.relabel σ) =
      ((comparisonOf name s).map fun c => (c.1, c.2.relabel σ.vars)).mapError Broken.unplaced := by
  cases s with
  | expression h x =>
    cases x with
    | binary s op l r =>
      simp only [Stmt.relabel, Expr.relabel, comparisonOf, Expr.span]
      split <;> rfl
    | _ => rfl
  | _ => rfl

theorem boundOf_relabel (hσ : Function.Injective σ.vars) (v : VarRef) (x : Expr) :
    boundOf (v.relabel σ.vars) (x.relabel σ.vars) =
      ((boundOf v x).map (Bound.relabel σ)).mapError Broken.unplaced := by
  have hside : (x.relabel σ.vars).side (σ.vars v.id) = (x.side v.id).relabel σ.vars :=
    Expr.side_relabel hσ v.id x
  simp only [boundOf, VarRef.relabel, hside, Expr.span_relabel]
  cases x.side v.id <;> rfl

theorem updateParts?_relabel (hσ : Function.Injective σ.vars) (id : Nat) (x : Expr) :
    updateParts? (σ.vars id) (x.relabel σ.vars) =
      (updateParts? id x).map fun p => (p.1, p.2.1.map (Expr.relabel σ.vars), p.2.2) := by
  have hunary := Expr.isUnaryOn_relabel hσ id x
  have hside := Expr.side_relabel hσ id x
  cases x with
  | unaryBefore s op y => exact congrArg (fun b => some (_, none, b)) hunary
  | unaryBehind s op y => exact congrArg (fun b => some (_, none, b)) hunary
  | binary s op l r =>
    simp only [Expr.relabel] at hside
    simp only [Expr.relabel, updateParts?, hside, Option.map_some]
    cases (Expr.binary s op l r).side id <;> rfl
  | _ => rfl

theorem stepOf_relabel (hσ : Function.Injective σ.vars) (v : VarRef) (s : Stmt) :
    stepOf (v.relabel σ.vars) (s.relabel σ) =
      ((stepOf v s).map (Step.relabel σ)).mapError Broken.unplaced := by
  cases s with
  | expression h x =>
    have hparts := updateParts?_relabel hσ v.id x
    simp only [Stmt.relabel, stepOf, VarRef.relabel, hparts]
    rcases updateParts? v.id x with _ | ⟨_ | op, value, _ | _⟩
    · rfl
    · exact congrArg (fun s => Except.error (_, s)) (Expr.span_relabel x)
    · exact congrArg (fun s => Except.error (_, s)) (Expr.span_relabel x)
    · exact congrArg (fun s => Except.error (_, s)) (Expr.span_startNode_relabel x)
    · rfl
  | _ => rfl

/-- The facts in a header are those in the header with other numbers. -/
theorem Loop.describe_relabel (hσ : Function.Injective σ.vars) (l : Loop)
    (hinit : ∀ v ∈ l.init.firsts, v.KeepsType σ vars vars') (label : String) :
    (l.relabel σ).describe vars' label = (l.describe vars label).relabel σ := by
  have hiterator := iteratorOf_relabel hinit
  unfold describe
  simp only [relabel, hiterator]
  cases iteratorOf vars l.init with
  | error b => rfl
  | ok d =>
    have hcomparison := comparisonOf_relabel (σ := σ) d.var.name l.check
    simp only [Except.map, Except.mapError]
    have hname : (d.relabel σ).var.name = d.var.name := rfl
    rw [hname, hcomparison]
    cases comparisonOf d.var.name l.check with
    | error b => rfl
    | ok c =>
      have hbound := boundOf_relabel hσ d.var c.2
      have hvar : (d.relabel σ).var = d.var.relabel σ.vars := rfl
      simp only [Except.map, Except.mapError, hvar, hbound]
      cases boundOf d.var c.2 with
      | error b => rfl
      | ok b =>
        simp only [Except.map, Except.mapError, stepOf_relabel hσ]
        cases stepOf d.var l.update <;> rfl

end

/-! ## Facts without places and numbers -/

def Declarator.shape (d : Declarator) : Declarator := d.relabel (.plain fun _ => 0)

def Descriptor.shape (d : Descriptor) : Descriptor := d.relabel (.plain fun _ => 0)

theorem Declarator.shape_relabel (σ : Numbering) (d : Declarator) :
    (d.relabel σ).shape = d.shape := by
  have hvalue (v : Option Expr) : (v.map (Expr.relabel σ.vars)).map Expr.shape = v.map Expr.shape := by
    cases v with
    | none => rfl
    | some x => exact congrArg some (Expr.shape_relabel σ.vars x)
  exact congrArg (fun v => Declarator.mk ⟨0, d.var.name⟩ v Span.none) (hvalue d.value)

theorem Descriptor.shape_relabel (σ : Numbering) (d : Descriptor) :
    (d.relabel σ).shape = d.shape := by
  obtain ⟨iterator, comparison, bound, step, failure⟩ := d
  have hiterator : (iterator.map (Declarator.relabel σ)).map Declarator.shape =
      iterator.map Declarator.shape := by
    cases iterator with
    | none => rfl
    | some d => exact congrArg some (d.shape_relabel σ)
  have hbound : (bound.map (Bound.relabel σ)).map (Bound.relabel (.plain fun _ => 0)) =
      bound.map (Bound.relabel (.plain fun _ => 0)) := by
    cases bound with
    | none => rfl
    | some b => exact congrArg (fun x => some (Bound.mk x b.onRight)) (b.value.shape_relabel σ.vars)
  have hstep : (step.map (Step.relabel σ)).map (Step.relabel (.plain fun _ => 0)) =
      step.map (Step.relabel (.plain fun _ => 0)) := by
    rcases step with _ | ⟨op, _ | x⟩
    · rfl
    · rfl
    · exact congrArg (fun x => some (Step.mk op (some x))) (x.shape_relabel σ.vars)
  have hfailure : (failure.map Rejection.unplaced).map Rejection.unplaced =
      failure.map Rejection.unplaced := by
    cases failure <;> rfl
  simp only [Descriptor.shape, Descriptor.relabel, Descriptor.mk.injEq]
  exact ⟨hiterator, trivial, hbound, hstep, hfailure⟩

/-! ## Arithmetic -/

namespace Expr

variable (σ : Nat → Nat)

theorem enclosed_relabel (x : Expr) : x.enclosed.relabel σ = (x.relabel σ).enclosed := by
  cases x <;> rfl

theorem combine_relabel (span : Span) (op : BinaryOp) (l r : Expr) :
    (combine span op l r).relabel σ = combine .none op (l.relabel σ) (r.relabel σ) := by
  rw [combine, combine, relabel, enclosed_relabel, enclosed_relabel]

end Expr

namespace Descriptor

variable (σ : Numbering) (d : Descriptor)

theorem iteratorSpan_relabel : (d.relabel σ).iteratorSpan = .none := by
  unfold iteratorSpan relabel
  cases d.iterator <;> rfl

theorem isInclusive_relabel : (d.relabel σ).isInclusive = d.isInclusive := rfl

theorem init?_relabel : (d.relabel σ).init? = d.init?.map (Expr.relabel σ.vars) := by
  unfold init? relabel
  cases d.iterator <;> rfl

theorem initText_relabel : (d.relabel σ).init?.map Expr.text = d.init?.map Expr.text := by
  rw [init?_relabel, Option.map_map]
  exact congrArg (fun g => d.init?.map g) (funext fun x => x.text_relabel σ.vars)

theorem iteratorName_relabel :
    (d.relabel σ).iteratorVar?.map VarRef.name = d.iteratorVar?.map VarRef.name := by
  unfold iteratorVar? relabel
  cases d.iterator <;> rfl

theorem boundText_relabel : ((d.relabel σ).bound.map fun b => b.value.text) =
    d.bound.map fun b => b.value.text := by
  unfold relabel
  cases d.bound with
  | none => rfl
  | some b => exact congrArg some (b.value.text_relabel σ.vars)

theorem updateOp?_relabel : (d.relabel σ).updateOp? = d.updateOp? := by
  unfold updateOp? relabel
  cases d.step <;> rfl

theorem stepText_relabel : (d.relabel σ).stepValue?.map Expr.text = d.stepValue?.map Expr.text := by
  unfold stepValue? relabel
  rcases d.step with _ | ⟨op, _ | x⟩
  · rfl
  · rfl
  · exact congrArg some (x.text_relabel σ.vars)

theorem direction?_relabel : (d.relabel σ).direction? = d.direction? := by
  rw [direction?, direction?, updateOp?_relabel]

theorem parts_relabel : (d.relabel σ).parts =
    d.parts.map fun p => (p.1.relabel σ.vars, p.2.1.relabel σ, p.2.2.relabel σ) := by
  have hvalid : (d.relabel σ).isValid = d.isValid := Option.isNone_map
  have hbound : (d.relabel σ).bound = d.bound.map (Bound.relabel σ) := rfl
  have hstep : (d.relabel σ).step = d.step.map (Step.relabel σ) := rfl
  unfold parts
  rw [hvalid, init?_relabel, hbound, hstep]
  split
  · rfl
  · cases d.init? <;> cases d.bound <;> cases d.step <;> rfl

theorem distance_relabel (span : Span) (direction : Direction) (init bound : Expr) :
    (distance span direction init bound).relabel σ.vars =
      distance .none direction (init.relabel σ.vars) (bound.relabel σ.vars) := by
  cases direction <;> exact Expr.combine_relabel _ _ _ _ _

theorem withBound_relabel (span : Span) (inclusive : Bool) (direction : Direction) (count : Expr) :
    (withBound span inclusive direction count).relabel σ.vars =
      withBound .none inclusive direction (count.relabel σ.vars) := by
  unfold withBound
  split
  · exact Expr.combine_relabel _ _ _ _ _
  · rfl

theorem withStep_relabel (span : Span) (direction : Direction) (step : Option Expr) (count : Expr) :
    (withStep span direction step count).relabel σ.vars =
      withStep .none direction (step.map (Expr.relabel σ.vars)) (count.relabel σ.vars) := by
  cases step with
  | none => rfl
  | some s => exact Expr.combine_relabel _ _ _ _ _

theorem scaled_relabel (span : Span) (step : Option Expr) (index : Expr) :
    (scaled span step index).relabel σ.vars =
      scaled .none (step.map (Expr.relabel σ.vars)) (index.relabel σ.vars) := by
  cases step with
  | none => exact Expr.enclosed_relabel _ _
  | some s =>
    unfold scaled
    rw [Expr.enclosed_relabel, Expr.combine_relabel]
    rfl

theorem tripCount_relabel : (d.relabel σ).tripCount = d.tripCount.map (Expr.relabel σ.vars) := by
  unfold tripCount
  rw [parts_relabel]
  cases d.parts with
  | error e => rfl
  | ok p =>
    refine congrArg Except.ok ?_
    simp only [iteratorSpan_relabel, withStep_relabel, withBound_relabel, distance_relabel,
      isInclusive_relabel]
    rfl

theorem valueAt_relabel (index : Expr) : (d.relabel σ).valueAt (index.relabel σ.vars) =
    (d.valueAt index).map (Expr.relabel σ.vars) := by
  unfold valueAt
  rw [parts_relabel]
  cases d.parts with
  | error e => rfl
  | ok p =>
    refine congrArg Except.ok ?_
    simp only [iteratorSpan_relabel, Expr.relabel, Expr.enclosed_relabel, scaled_relabel]
    rfl

end Descriptor

end LoopNest
