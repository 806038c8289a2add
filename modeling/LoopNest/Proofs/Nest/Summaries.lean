import LoopNest.Proofs.Grammar.ReadBack
import LoopNest.Proofs.Nest.Iterator

/-!
# The texts in summaries

A summary shows the initial value, the bound and the step of a loop as texts, and the arithmetic
that is made of them. These texts can be read again as the expressions that they show, unless a
minus in the source stands right in front of another one, or a number is infinite.

* `Descriptor.readable_tripCount`, `Descriptor.readable_valueAt`: what is made of readable parts is
  readable.
* `Program.check_shows`: the summaries in a report show readable texts.
-/

namespace LoopNest

/-! ## Readable expressions -/

namespace Expr

theorem Readable.parentheses {x : Expr} (h : x.Readable) (s : Span) :
    (Expr.parentheses s x).Readable := by
  refine ⟨h.1, fun y hy => ?_⟩
  rcases List.mem_cons.mp hy with rfl | hy
  · exact ⟨trivial, trivial⟩
  · exact h.2 y hy

theorem Readable.enclosed {x : Expr} (h : x.Readable) : x.enclosed.Readable := by
  cases x <;> first | exact h | exact h.parentheses _

theorem binding_enclosed (x : Expr) : x.enclosed.binding = 9 := by
  cases x <;> rfl

theorem Readable.binary {l r : Expr} (hl : l.Readable) (hr : r.Readable) (s : Span) (op : BinaryOp)
    (hbinding : leftLevel op ≤ l.binding) (hbinding' : rightLevel op ≤ r.binding) :
    (Expr.binary s op l r).Readable := by
  refine ⟨⟨⟨hbinding, hl.1⟩, hbinding', hr.1⟩, fun y hy => ?_⟩
  rcases List.mem_cons.mp hy with rfl | hy
  · exact ⟨trivial, trivial⟩
  · rcases List.mem_append.mp hy with hy | hy
    · exact hl.2 y hy
    · exact hr.2 y hy

theorem Readable.combine {l r : Expr} (hl : l.Readable) (hr : r.Readable) (s : Span)
    (op : BinaryOp) : (combine s op l r).Readable := by
  refine hl.enclosed.binary hr.enclosed s op ?_ ?_
  · exact l.binding_enclosed.symm ▸ (levels_le op).1
  · exact r.binding_enclosed.symm ▸ (levels_le op).2

theorem readable_one (s : Span) : (literal s (.int 1)).Readable := by
  refine ⟨⟨1, rfl, by decide⟩, fun y hy => ?_⟩
  obtain rfl := List.mem_singleton.mp hy
  exact ⟨trivial, trivial⟩

theorem readable_var {v : VarRef} (hv : Text.IsName v.name) (s : Span) : (var s v).Readable := by
  refine ⟨hv, fun y hy => ?_⟩
  obtain rfl := List.mem_singleton.mp hy
  exact ⟨trivial, trivial⟩

/-- The operands of an operator have the form that the grammar asks for, as it does. -/
theorem Grammatical.operands {s : Span} {op : BinaryOp} {l r : Expr}
    (h : (Expr.binary s op l r).Grammatical) : l.Grammatical ∧ r.Grammatical := ⟨h.1.2, h.2.2⟩

end Expr

/-! ## The expressions of a header -/

namespace Descriptor

/-- The expressions of which the arithmetic is made. -/
def expressions (d : Descriptor) : List Expr :=
  d.init?.toList ++ (d.bound.map Bound.value).toList ++ d.stepValue?.toList

variable {d : Descriptor} (h : ∀ x ∈ d.expressions, x.Readable)
include h

theorem readable_init {x : Expr} (hx : d.init? = some x) : x.Readable :=
  h x (by simp [expressions, hx])

theorem readable_bound {b : Bound} (hb : d.bound = some b) : b.value.Readable :=
  h b.value (by simp [expressions, hb])

theorem readable_step {x : Expr} (hx : d.stepValue? = some x) : x.Readable :=
  h x (by simp [expressions, hx])

theorem readable_parts {init : Expr} {b : Bound} {step : Step}
    (hparts : d.parts = .ok (init, b, step)) :
    init.Readable ∧ b.value.Readable ∧ ∀ x ∈ step.value, x.Readable := by
  unfold parts at hparts
  split at hparts
  · cases hparts
  · split at hparts
    · cases hparts
    · next hinit hbound hstep =>
      cases hparts
      refine ⟨readable_init h hinit, readable_bound h hbound, fun x hx => readable_step h ?_⟩
      rw [stepValue?, hstep]
      exact hx
    · cases hparts

theorem readable_tripCount {count : Expr} (hcount : d.tripCount = .ok count) : count.Readable := by
  unfold tripCount at hcount
  cases hparts : d.parts with
  | error e =>
    rw [hparts] at hcount
    cases hcount
  | ok p =>
    obtain ⟨init, b, step⟩ := p
    obtain ⟨hinit, hbound, hstep⟩ := readable_parts h hparts
    rw [hparts] at hcount
    obtain rfl := Except.ok.inj hcount
    have hdistance (s : Span) (way : Direction) : (distance s way init b.value).Readable := by
      cases way with
      | ascending => exact hbound.combine hinit s .sub
      | descending => exact hinit.combine hbound s .sub
    have hwith (s : Span) (way : Direction) :
        (withBound s d.isInclusive way (distance s way init b.value)).Readable := by
      unfold withBound
      split
      · exact (hdistance s way).combine (Expr.readable_one s) s _
      · exact hdistance s way
    unfold withStep
    split
    · next x hx => exact (hwith _ _).combine (hstep x hx) _ _
    · exact hwith _ _

theorem readable_valueAt {index value : Expr} (hindex : index.Readable)
    (hvalue : d.valueAt index = .ok value) : value.Readable := by
  unfold valueAt at hvalue
  cases hparts : d.parts with
  | error e =>
    rw [hparts] at hvalue
    cases hvalue
  | ok p =>
    obtain ⟨init, b, step⟩ := p
    obtain ⟨hinit, _, hstep⟩ := readable_parts h hparts
    rw [hparts] at hvalue
    obtain rfl := Except.ok.inj hvalue
    have hscaled : (scaled d.iteratorSpan step.value index).Readable ∧
        (scaled d.iteratorSpan step.value index).binding = 9 := by
      unfold scaled
      split
      · next x hx =>
        exact ⟨((hstep x hx).combine hindex _ _).enclosed, Expr.binding_enclosed _⟩
      · exact ⟨hindex.enclosed, Expr.binding_enclosed _⟩
    refine hinit.enclosed.binary hscaled.1 _ _ ?_ ?_
    · exact init.binding_enclosed.symm ▸ (Expr.levels_le _).1
    · exact hscaled.2.symm ▸ (Expr.levels_le _).2

end Descriptor

/-- The parts of a header have the form that the grammar asks for, as its clauses do. -/
theorem Loop.grammatical_describe {loop : Loop} {vars : VarTable} {label : String}
    (hclauses : ∀ s ∈ [loop.init, loop.check, loop.update], ∀ x ∈ s.values, x.Grammatical)
    (hvalid : (loop.describe vars label).isValid = true) :
    ∀ x ∈ (loop.describe vars label).expressions, x.Grammatical := by
  obtain ⟨d, op, x, b, step, hiterator, hcomparison, hbound, hstep, hdescribe⟩ :=
    describe_of_isValid hvalid
  simp only [List.forall_mem_cons] at hclauses
  obtain ⟨hinit, hcheck, hupdate, _⟩ := hclauses
  rw [hdescribe, Descriptor.expressions, List.forall_mem_append, List.forall_mem_append]
  refine ⟨⟨fun y hy => ?_, fun y hy => ?_⟩, fun y hy => ?_⟩
  · have hds := declarators?_of_iteratorOf hiterator
    refine hinit y ?_
    cases hi : loop.init <;> rw [hi] at hds <;> cases hds
    simpa [Stmt.values, Descriptor.init?] using hy
  · obtain ⟨_, head, span, left, right, hx, rfl⟩ := comparisonOf_eq_ok_iff.mp hcomparison
    obtain rfl : y = b.value := by simpa using hy
    have hoperands := (hcheck _ (by rw [hx]; exact List.mem_singleton_self _)).operands
    rcases boundOf_eq_ok_iff.mp hbound with ⟨_, rfl⟩ | ⟨_, _, rfl⟩
    · exact hoperands.2
    · exact hoperands.1
  · obtain ⟨head, z, hz, hstep⟩ := stepOf_eq_ok_iff.mp hstep
    have hgrammatical := hupdate z (by rw [hz]; exact List.mem_singleton_self _)
    have hy : step.value = some y := by simpa [Descriptor.stepValue?] using hy
    cases hstep with
    | before | behind => cases hy
    | left => exact Option.some.inj hy ▸ hgrammatical.operands.2
    | right => exact Option.some.inj hy ▸ hgrammatical.operands.1

/-! ## Accepted loops -/

/-- The parts of an accepted header have the form that the grammar asks for, whatever variables
there are besides those of the program. -/
theorem Program.grammatical_of_mem_loops {source : String} {p : Program}
    (hp : Program.read source = .ok p) {vars : VarTable} {config : CheckConfig} {l : MappedLoop}
    (h : l ∈ (({ p with vars } : Program).classify config).loops) :
    ∀ x ∈ l.descriptor.expressions, x.Grammatical := by
  obtain ⟨f, hf, s, hs, loop, hloop, hdescribe, hready⟩ := loop_of_mem_loops h
  have hvalid : l.descriptor.isValid = true := hready.valid
  rw [hdescribe] at hvalid ⊢
  refine Loop.grammatical_describe (fun t ht x hx => ?_) hvalid
  have hchild : t ∈ s.children := by
    cases s <;> cases hloop
    simp only [List.mem_cons, List.not_mem_nil, or_false] at ht
    simp only [Stmt.children, List.mem_cons, List.not_mem_nil, or_false]
    tauto
  obtain ⟨_, _, _, _, hread⟩ := (isRead_of_read hp hf hs).children t hchild
  exact hread.grammatical x (List.mem_append_right _ hx)

/-! ## Summaries -/

/-- The summary shows the expressions of the loop in texts from which they can be read. -/
structure MappedLoop.IsShownBy (l : MappedLoop) (index : Expr) (s : LoopSummary) : Prop where
  init : ∃ x, l.descriptor.init? = some x ∧ x.IsReadFrom s.init
  bound : ∃ b, l.descriptor.bound = some b ∧ b.value.IsReadFrom s.bound
  step : Option.Rel Expr.IsReadFrom l.descriptor.stepValue? s.step
  tripCount : ∃ x, l.descriptor.tripCount = .ok x ∧ x.IsReadFrom s.tripCount
  valueAt : ∃ x, l.descriptor.valueAt index = .ok x ∧ x.IsReadFrom s.valueAtIndex

theorem MappedLoop.isShownBy {l : MappedLoop} {index : Expr} {s : LoopSummary}
    (hready : l.descriptor.Ready) (h : ∀ x ∈ l.descriptor.expressions, x.Readable)
    (hindex : index.Readable) (hs : l.summary index = .ok s) : l.IsShownBy index s := by
  obtain ⟨count, hcount⟩ := hready.tripCount
  obtain ⟨value, hvalue⟩ := hready.valueAt index
  obtain ⟨x, hx⟩ := Option.isSome_iff_exists.mp hready.init
  obtain ⟨b, hb⟩ := Option.isSome_iff_exists.mp hready.bound
  rw [summary, hcount, hvalue] at hs
  obtain rfl := Except.ok.inj hs
  refine ⟨⟨x, hx, ?_⟩, ⟨b, hb, ?_⟩, ?_, ⟨count, hcount, ?_⟩, ⟨value, hvalue, ?_⟩⟩
  · simpa [hx] using (Descriptor.readable_init h hx).isReadFrom
  · simpa [hb] using (Descriptor.readable_bound h hb).isReadFrom
  · cases hstep : l.descriptor.stepValue? with
    | none => exact .none
    | some y => exact .some (Descriptor.readable_step h hstep).isReadFrom
  · exact (Descriptor.readable_tripCount h hcount).isReadFrom
  · exact (Descriptor.readable_valueAt h hindex hvalue).isReadFrom

/-- **Summaries show what they are made of.** A report has a summary of every accepted loop, in the
same order. If no minus in the parts of the header stands right in front of another one and no float
is infinite, then the texts in the summary are read as the expressions that they show, whatever name
the index has. -/
theorem Program.check_shows {source : String} {p : Program} (hp : Program.read source = .ok p)
    (config : CheckConfig) (hname : Text.IsName config.flatIndex) :
    let (index, p') := p.withIndex config.flatIndex
    List.Forall₂ (fun l s => (∀ x ∈ l.descriptor.expressions, x.Legible) → l.IsShownBy index s)
      (p'.classify config).loops (p.check config).1.loops := by
  have hshows (l : MappedLoop) (s : LoopSummary)
      (hl : l ∈ ((p.withIndex config.flatIndex).2.classify config).loops)
      (hs : l.summary (p.withIndex config.flatIndex).1 = .ok s)
      (h : ∀ x ∈ l.descriptor.expressions, x.Legible) :
      l.IsShownBy (p.withIndex config.flatIndex).1 s :=
    l.isShownBy (ready_of_mem_loops hl)
      (fun x hx => (h x hx).readable (grammatical_of_mem_loops hp hl x hx))
      (Expr.readable_var hname _) hs
  exact ((List.forall₂_and_left _ _).mpr ⟨fun _ hl => hl, p.check_loops config⟩).imp
    fun l s h => hshows l s h.1 h.2

theorem Text.isName_flatIndex : Text.IsName "flat_idx" := by decide +kernel

/-- Loops with operators, calls, an assignment and a float in their headers. -/
theorem Program.check_shows_nested :
    ∃ p, Program.read "@kernel void k(int n, int *a) { @outer
        for (int i = -n; !a[i] * 2 > i; i += g(n, 2.5) - 1)
          @inner for (int j = -(-n); j <= (n = 3); j++) ; }" = .ok p ∧
      let (index, p') := p.withIndex "flat_idx"
      ((p'.classify {}).loops.length = 2 ∧
        ∀ l ∈ (p'.classify {}).loops, ∀ x ∈ l.descriptor.expressions, x.Legible) ∧
      List.Forall₂ (fun l s => l.IsShownBy index s) (p'.classify {}).loops (p.check {}).1.loops := by
  refine (exists_of_read (P := fun p =>
    let (_, p') := p.withIndex "flat_idx"
    decide ((p'.classify {}).loops.length = 2 ∧
      ∀ l ∈ (p'.classify {}).loops, ∀ x ∈ l.descriptor.expressions, x.Legible)) ?_).imp fun p h =>
        ⟨h.1, of_decide_eq_true h.2, ?_⟩
  · decide +kernel
  · have hlegible := (of_decide_eq_true h.2).2
    exact ((List.forall₂_and_left _ _).mpr
      ⟨hlegible, check_shows h.1 {} Text.isName_flatIndex⟩).imp fun _ _ hl => hl.2 hl.1

/-- A decrement in front of an operand. -/
def Expr.isDecrement : Expr → Bool
  | unaryBefore _ op _ => op == .decrement
  | _ => false

/-- The summary shows a decrement where the initial value of the loop is none. -/
def MappedLoop.showsDecrement (l : MappedLoop) (index : Expr) (s : LoopSummary) : Bool :=
  match l.summary index, l.descriptor.init?, Expr.ofText? s.init with
  | .ok s', some x, some y => s' == s && y.shape.isDecrement && !x.shape.isDecrement
  | _, _, _ => false

/-- The initial value `- -n` is shown as `--n`, which is another expression. -/
theorem Program.check_shows_decrement :
    ∃ p, Program.read "@kernel void k(int n) { @outer for (int i = - -n; i < 10; ++i)
        @inner for (int j = 0; j < n; ++j) ; }" = .ok p ∧
      let (index, p') := p.withIndex "flat_idx"
      ∃ l ∈ (p'.classify {}).loops, ∃ s ∈ (p.check {}).1.loops, ∃ x, l.summary index = .ok s ∧
        l.descriptor.init? = some x ∧ ¬ x.IsReadFrom s.init := by
  refine (exists_of_read (P := fun p =>
    let (index, p') := p.withIndex "flat_idx"
    (p'.classify {}).loops.any fun l => (p.check {}).1.loops.any fun s =>
      l.showsDecrement index s) ?_).imp fun p h => ⟨h.1, ?_⟩
  · decide +kernel
  · obtain ⟨l, hl, hsummary⟩ := List.any_eq_true.mp h.2
    obtain ⟨s, hs, hshown⟩ := List.any_eq_true.mp hsummary
    refine ⟨l, hl, s, hs, ?_⟩
    unfold MappedLoop.showsDecrement at hshown
    split at hshown
    · next s' x y hs' hx hy =>
      simp only [Bool.and_eq_true, beq_iff_eq, Bool.not_eq_true'] at hshown
      obtain ⟨⟨rfl, hdecrement⟩, hother⟩ := hshown
      refine ⟨x, hs', hx, ?_⟩
      rintro ⟨z, hz, hshape⟩
      obtain rfl : y = z := Option.some.inj (hy.symm.trans hz)
      rw [hshape, hother] at hdecrement
      cases hdecrement
    · cases hshown

end LoopNest
