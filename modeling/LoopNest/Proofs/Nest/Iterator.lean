import LoopNest.Proofs.Grammar.Mentions
import LoopNest.Proofs.Grammar.PlainHeaders
import LoopNest.Proofs.Header.Clauses
import LoopNest.Proofs.Nest.Verdict

/-!
# The iterator of an accepted loop

Behind the first clause of its header, the name of an iterator stands for the iterator, and the
rule on shadowing lets nothing in the body change that. The arithmetic for the loop is made where
there is no iterator any more.

* `Stmt.IsRead.iterator`: what the first clause of a header that was read leaves behind.
* `Program.accepted_loop_names`: in an accepted loop the name of the iterator is the iterator.
* `Descriptor.Mentions`: when the arithmetic for a header mentions the iterator.
* `Program.accepted_loop_mentions`: so it is in every accepted loop.
-/

namespace LoopNest

/-! ## The first clause -/

theorem declarators?_of_iteratorOf {vars : VarTable} {init : Stmt} {d : Declarator}
    (h : iteratorOf vars init = .ok d) : init.declarators? = some [d] := by
  unfold iteratorOf at h
  split at h
  · cases h
  · cases h
  · cases h
  · next hds =>
    split at h
    · cases h
      exact hds
    · cases h

/-- Behind its declaration, a single variable in the first clause is what its name stands for. Its
initial value is older, and what is used and declared behind it comes in one run. -/
theorem Stmt.IsRead.iterator {s : Stmt} (h : s.IsRead) {loop : Loop} (hloop : s.loop? = some loop)
    {d : Declarator} (hd : loop.init.declarators? = some [d]) :
    (∀ v ∈ d.value.toList.flatMap Expr.refs, v.id < d.var.id) ∧
      loop.check.IsClause ∧ loop.update.IsClause ∧
      ∃ c c' : Context, c.find? d.var.name = some d.var ∧ d.var.id < c.vars.size ∧
        c.RunWith (loop.check.uses ++ loop.update.uses ++ loop.body.uses) loop.body.declared c' := by
  obtain ⟨_, c, c', hc, hs⟩ := h
  cases s with
  | forLoop head init check update body =>
    obtain rfl : (⟨init, check, update, body⟩ : Loop) = loop := Option.some.inj hloop
    obtain ⟨before, behind, c₁, c₂, c₃, c₄, c₅, c₆, _, hbefore, ⟨_, hinit⟩, ⟨hcheck', hcheck⟩,
      ⟨hupdate', hupdate⟩, hbehind, hbody, _⟩ := hs
    have hc₁ : c₁.push.Sound := ((Context.Run.of_reads hbefore.2).sound hc).push
    cases init with
    | declaration head' ds =>
      obtain rfl : ds = [d] := Option.some.inj hd
      obtain ⟨c₇, base, hmarks, _, hds⟩ := hinit
      have hc₇ := (Context.Run.of_reads hmarks.2).sound hc₁
      obtain ⟨⟩ | ⟨⟨vs, c₈, c₉, type, hsizes, hvalue, _, _, hdeclares, _⟩, ⟨⟩⟩ := hds
      have hc₈ := (Context.Run.of_refers hsizes).sound hc₇
      have hc₉ := (Context.Run.of_reads hvalue).sound hc₈
      obtain ⟨hid, hlt, _⟩ := hdeclares.get?
      refine ⟨fun v hv => ?_, hcheck', hupdate', c₂, c₆, hdeclares.find? hc₉, hlt, ?_⟩
      · rw [hid]
        exact (Context.Run.of_reads hvalue).used_lt hc₈ v hv
      · have hrun := ((hcheck.run.append hupdate.run).append hbehind.run).append hbody.run
        refine hrun.mono ?_ ?_
        · intro v hv
          simp only [List.mem_append] at hv ⊢
          tauto
        · rw [Stmt.declared_eq_nil_of_isClause hcheck',
            Stmt.declared_eq_nil_of_isClause hupdate']
          rfl
    | _ => cases hd
  | _ => cases hloop

/-! ## Accepted loops -/

/-- A placed loop is some statement of its function. -/
theorem Function.stmt_of_mem_placedLoops {f : Function} {o : PlacedLoop} (h : o ∈ f.placedLoops) :
    ∃ s ∈ f.body.allStatements, s.loop? = some o.loop ∧ s.head = o.head := by
  obtain ⟨s, hs, ho⟩ := List.mem_flatMap.mp h
  obtain ⟨t, ht, hmapped⟩ := List.mem_filterMap.mp ho
  refine ⟨t.stmt, ?_, ?_⟩
  · rw [Block.allStatements, Stmt.statementsAll_eq]
    refine List.mem_flatMap.mpr ⟨s, hs, ?_⟩
    rw [← Stmt.map_stmt_occurrences []]
    exact List.mem_map_of_mem ht
  · obtain ⟨loop, hloop, hlevel⟩ := Option.bind_eq_some_iff.mp hmapped
    obtain ⟨⟨level, mark⟩, _, rfl⟩ := Option.map_eq_some_iff.mp hlevel
    exact ⟨hloop, rfl⟩

/-- A loop that is accepted, in whatever mode, is one that breaks no rule. -/
theorem Program.placed_of_mem_loops {source : String} {p : Program}
    (hp : Program.read source = .ok p) {config : CheckConfig} {l : MappedLoop}
    (hl : l ∈ (p.classify config).loops) :
    ∃ f ∈ p.kernels, ∃ o ∈ f.placedLoops, o.Sound p.vars config.label ∧
      o.mapped ⟨f.name, p.vars, config.label⟩ = l := by
  rw [classify_eq] at hl
  obtain ⟨e, he, hloop⟩ := List.mem_filterMap.mp hl
  obtain ⟨f, hf, he⟩ := List.mem_flatMap.mp ((config.mode.cut_prefix _).subset he)
  have hread : f ∈ p.functions := List.mem_of_mem_filter hf
  have hmem : l ∈ (f.events p.vars config.label).filterMap Event.loop? :=
    List.mem_filterMap.mpr ⟨e, he, hloop⟩
  rw [Function.loops_events (plainHeaders_of_read hp f hread)] at hmem
  obtain ⟨o, ho, hmapped⟩ := List.mem_map.mp hmem
  obtain ⟨ho, hsound⟩ := List.mem_filter.mp ho
  exact ⟨f, hf, o, ho, of_decide_eq_true hsound, hmapped⟩

/-- **In an accepted loop the name of the iterator is the iterator.** Every loop that a check accepts
is some mapped loop of a kernel. All variables with the name of its iterator that occur in its
second and third clause and in its body, at any depth and in attributes as well, are the
iterator. -/
theorem Program.accepted_loop_names {source : String} {p : Program}
    (hp : Program.read source = .ok p) {config : CheckConfig} {l : MappedLoop}
    (hl : l ∈ (p.classify config).loops) :
    ∃ f ∈ p.kernels, ∃ o ∈ f.placedLoops, o.mapped ⟨f.name, p.vars, config.label⟩ = l ∧
      ∃ it, l.descriptor.iteratorVar? = some it ∧
        ∀ s ∈ [o.loop.check, o.loop.update, o.loop.body], ∀ v ∈ s.mentioned,
          v.name = it.name → v.id = it.id := by
  obtain ⟨f, hf, o, ho, hsound, rfl⟩ := placed_of_mem_loops hp hl
  refine ⟨f, hf, o, ho, rfl, ?_⟩
  obtain ⟨d, _, _, _, _, hiterator, _, _, _, hdescribe⟩ := Loop.describe_of_isValid hsound.header
  have hit : (o.loop.describe p.vars config.label).iteratorVar? = some d.var := by
    rw [hdescribe]
    rfl
  refine ⟨d.var, hit, ?_⟩
  obtain ⟨s, hs, hloop, _⟩ := Function.stmt_of_mem_placedLoops ho
  have hread : s.IsRead := isRead_of_read hp (List.mem_of_mem_filter hf) hs
  obtain ⟨_, hcheck, hupdate, c, c', hfind, hlt, us, hus, hrun⟩ :=
    hread.iterator hloop (declarators?_of_iteratorOf hiterator)
  -- Whatever the body declares is younger than the iterator, so it would shadow it.
  have hdeclared : ∀ v ∈ o.loop.body.declared, v.name ≠ d.var.name := by
    intro v hv hname
    obtain ⟨e, he, rfl⟩ := List.mem_map.mp hv
    have hle := hrun.le_declared _ hv
    have hne : e.var.id ≠ d.var.id := by omega
    exact hsound.unshadowed d.var hit e he ⟨hname, hne⟩
  have hused (v : VarRef)
      (hv : v ∈ o.loop.check.uses ++ o.loop.update.uses ++ o.loop.body.uses)
      (hname : v.name = d.var.name) : v.id = d.var.id := by
    rw [(hrun.keeps hfind hdeclared).2 v (hus hv) hname]
  intro s hs v hv hname
  simp only [List.mem_cons, List.not_mem_nil, or_false] at hs
  rcases List.mem_append.mp hv with hv | hv
  · refine hused v ?_ hname
    rcases hs with rfl | rfl | rfl <;> simp [hv]
  · rcases hs with rfl | rfl | rfl
    · rw [Stmt.declared_eq_nil_of_isClause hcheck] at hv
      cases hv
    · rw [Stmt.declared_eq_nil_of_isClause hupdate] at hv
      cases hv
    · exact absurd hname (hdeclared v hv)

/-- The inner loop and the attribute in its header go back to the iterator of the outer one. -/
theorem Program.accepted_loop_names_nested :
    ∃ p, Program.read "@kernel void f(int n) { @outer for (int i = 0; i < n; i++) {
        int m = i; @tile(i) @inner for (int j = i; j < m; j++) f(i, j); } }" = .ok p ∧
      ∃ l ∈ (p.classify {}).loops, ∃ f ∈ p.kernels, ∃ o ∈ f.placedLoops,
        o.mapped ⟨f.name, p.vars, ""⟩ = l ∧
        ∃ it, l.descriptor.iteratorVar? = some it ∧
          ∀ s ∈ [o.loop.check, o.loop.update, o.loop.body], ∀ v ∈ s.mentioned,
            v.name = it.name → v.id = it.id := by
  refine (exists_of_read (P := fun p => !(p.classify {}).loops.isEmpty) ?_).imp
    fun p h => ⟨h.1, ?_⟩
  · decide +kernel
  · obtain ⟨l, hl⟩ := List.exists_mem_of_ne_nil _ (by simpa using h.2)
    exact ⟨l, hl, accepted_loop_names h.1 hl⟩

/-! ## The arithmetic -/

namespace Expr

mutual

/-- A variable is mentioned if some reference in the expression is one to it. -/
theorem mentions_eq (id : Nat) : ∀ x : Expr, x.mentions id = x.refs.any fun v => v.id == id
  | var _ _ => by simp [mentions]
  | literal _ _ => rfl
  | unaryBefore _ _ x => mentions_eq id x
  | unaryBehind _ _ x => mentions_eq id x
  | binary _ _ l r => by simp [mentions, mentions_eq id l, mentions_eq id r]
  | parentheses _ x => mentions_eq id x
  | subscript _ a i => by simp [mentions, mentions_eq id a, mentions_eq id i]
  | call _ _ args => by simp [mentions, mentionedBy_eq id args]

theorem mentionedBy_eq (id : Nat) : ∀ xs : List Expr,
    mentionedBy id xs = (xs.flatMap refs).any fun v => v.id == id
  | [] => rfl
  | x :: xs => by simp [mentionedBy, mentions_eq id x, mentionedBy_eq id xs]

end

variable {id : Nat}

@[simp] theorem mentions_enclosed (x : Expr) : x.enclosed.mentions id = x.mentions id := by
  cases x <;> rfl

@[simp] theorem mentions_combine (span : Span) (op : BinaryOp) (l r : Expr) :
    (combine span op l r).mentions id = (l.mentions id || r.mentions id) := by
  simp [combine, mentions]

end Expr

namespace Descriptor

variable (id : Nat) {d : Descriptor} {init : Expr} {bound : Bound} {step : Step}

/-- The number of iterations mentions what the initial value, the bound and the step value do. -/
theorem mentions_tripCount (h : d.parts = .ok (init, bound, step)) :
    ∃ count, d.tripCount = .ok count ∧
      count.mentions id = (init.mentions id || bound.value.mentions id ||
        step.value.any fun s => s.mentions id) := by
  refine ⟨_, by rw [tripCount, h]; rfl, ?_⟩
  have hdistance (span : Span) (way : Direction) :
      (distance span way init bound.value).mentions id =
        (init.mentions id || bound.value.mentions id) := by
    cases way <;> simp [distance, Bool.or_comm]
  have hbound (span : Span) (inclusive : Bool) (way : Direction) (count : Expr) :
      (withBound span inclusive way count).mentions id = count.mentions id := by
    cases inclusive <;> simp [withBound, Expr.mentions]
  cases hvalue : step.value <;> simp [withStep, hdistance, hbound]

/-- The value of the iterator mentions what the initial value, the step value and the index do. -/
theorem mentions_valueAt (h : d.parts = .ok (init, bound, step)) (index : Expr) :
    ∃ value, d.valueAt index = .ok value ∧
      value.mentions id = (init.mentions id || (step.value.any fun s => s.mentions id) ||
        index.mentions id) := by
  refine ⟨_, by rw [valueAt, h]; rfl, ?_⟩
  cases hvalue : step.value <;> simp [scaled, Expr.mentions, Bool.or_assoc]

end Descriptor

/-- The operands of a header: the bound is the one beside the iterator in the second clause. If both
are the iterator then the right one is the bound. -/
structure Loop.HasOperands (loop : Loop) (it : VarRef) (bound : Expr) (step : Step) : Prop where
  check : ∃ head span op left right, loop.check = .expression head (.binary span op left right) ∧
    ((left.isVar it.id = true ∧ bound = right) ∨
      (left.isVar it.id = false ∧ right.isVar it.id = true ∧ bound = left))
  update : ∃ head x, loop.update = .expression head x ∧ x.IsStep it.id step

/-- When the arithmetic for a header with that bound and that step mentions the iterator. -/
structure Descriptor.Mentions (d : Descriptor) (it : VarRef) (bound : Expr) (step : Step) :
    Prop where
  init : ∃ init, d.init? = some init ∧ init.mentions it.id = false
  tripCount : ∃ count, d.tripCount = .ok count ∧
    (count.mentions it.id = true ↔
      bound.mentions it.id = true ∨ ∃ s ∈ step.value, s.mentions it.id = true)
  valueAt : ∀ index : Expr, index.mentions it.id = false →
    ∃ value, d.valueAt index = .ok value ∧
      (value.mentions it.id = true ↔ ∃ s ∈ step.value, s.mentions it.id = true)

/-- **The arithmetic mentions the iterator where the bound or the step does.** A check that is
accepted has the iterator as an operand, and the bound is the other one; it may be the iterator
again. The initial value never mentions the iterator. So the number of iterations mentions it
exactly if the bound or the step value does, and the value at an index without it exactly if the
step value does. -/
theorem Program.accepted_loop_mentions {source : String} {p : Program}
    (hp : Program.read source = .ok p) {config : CheckConfig} {l : MappedLoop}
    (hl : l ∈ (p.classify config).loops) :
    ∃ f ∈ p.kernels, ∃ o ∈ f.placedLoops, o.mapped ⟨f.name, p.vars, config.label⟩ = l ∧
      ∃ it bound step, l.descriptor.iteratorVar? = some it ∧ o.loop.HasOperands it bound step ∧
        l.descriptor.Mentions it bound step := by
  obtain ⟨f, hf, o, ho, hsound, rfl⟩ := placed_of_mem_loops hp hl
  refine ⟨f, hf, o, ho, rfl, ?_⟩
  obtain ⟨d, op, x, b, step, hiterator, hcomparison, hbound, hstep, hdescribe⟩ :=
    Loop.describe_of_isValid hsound.header
  obtain ⟨_, head, span, left, right, hcheck, rfl⟩ := comparisonOf_eq_ok_iff.mp hcomparison
  obtain ⟨s, hs, hloop, _⟩ := Function.stmt_of_mem_placedLoops ho
  have hread : s.IsRead := isRead_of_read hp (List.mem_of_mem_filter hf) hs
  obtain ⟨hold, _⟩ := hread.iterator hloop (declarators?_of_iteratorOf hiterator)
  obtain ⟨init, hinit⟩ := Option.isSome_iff_exists.mp hsound.initialized
  have hparts : (o.loop.describe p.vars config.label).parts = .ok (init, b, step) := by
    rw [Descriptor.parts, hsound.header, hinit, hdescribe]
    rfl
  have hquiet : init.mentions d.var.id = false := by
    have hd : d.value = some init := by simpa [hdescribe, Descriptor.init?] using hinit
    rw [Expr.mentions_eq, List.any_eq_false]
    intro v hv heq
    have hlt := hold v (by simpa [hd] using hv)
    have hid : v.id = d.var.id := eq_of_beq heq
    omega
  have hoperands : o.loop.HasOperands d.var b.value step := by
    refine ⟨⟨head, span, op, left, right, hcheck, ?_⟩, stepOf_eq_ok_iff.mp hstep⟩
    rcases boundOf_eq_ok_iff.mp hbound with ⟨hleft, rfl⟩ | ⟨hleft, hright, rfl⟩
    · exact .inl ⟨hleft, rfl⟩
    · exact .inr ⟨hleft, hright, rfl⟩
  have hit : (o.loop.describe p.vars config.label).iteratorVar? = some d.var := by
    rw [hdescribe]
    rfl
  refine ⟨d.var, b.value, step, hit, hoperands, ⟨init, hinit, hquiet⟩, ?_, fun index hindex => ?_⟩
  · obtain ⟨count, hcount, hmentions⟩ := Descriptor.mentions_tripCount d.var.id hparts
    exact ⟨count, hcount, by simp [hmentions, hquiet, Option.any_eq_true]⟩
  · obtain ⟨value, hvalue, hmentions⟩ := Descriptor.mentions_valueAt d.var.id hparts index
    exact ⟨value, hvalue, by simp [hmentions, hquiet, hindex, Option.any_eq_true]⟩

/-- Two loops that go by the iterator of the other one. -/
theorem Program.accepted_loop_mentions_nested :
    ∃ p, Program.read "@kernel void f(int n) { @outer for (int i = 0; i < n; i += 2)
        @inner for (int j = i; n >= j; j += i) ; }" = .ok p ∧
      ∃ l ∈ (p.classify {}).loops, ∃ f ∈ p.kernels, ∃ o ∈ f.placedLoops,
        o.mapped ⟨f.name, p.vars, ""⟩ = l ∧
        ∃ it bound step, l.descriptor.iteratorVar? = some it ∧ o.loop.HasOperands it bound step ∧
          l.descriptor.Mentions it bound step := by
  refine (exists_of_read (P := fun p => !(p.classify {}).loops.isEmpty) ?_).imp
    fun p h => ⟨h.1, ?_⟩
  · decide +kernel
  · obtain ⟨l, hl⟩ := List.exists_mem_of_ne_nil _ (by simpa using h.2)
    exact ⟨l, hl, accepted_loop_mentions h.1 hl⟩

/-- The number of iterations and the value at the index zero mention the iterator. -/
def Descriptor.mentionsIterator (d : Descriptor) : Bool :=
  match d.iteratorVar?, d.tripCount, d.valueAt (.literal .none (.int 0)) with
  | some it, .ok count, .ok value => count.mentions it.id && value.mentions it.id
  | _, _, _ => false

/-- The header `for (int i = 0; i < i; i += i)` is accepted, and both the number of iterations and
the value at the index zero mention `i`. -/
theorem Program.accepted_loop_beside_itself :
    ∃ p, Program.read "@kernel void f() { @outer for (int i = 0; i < i; i += i)
        @inner for (int j = 0; j < 1; j++) ; }" = .ok p ∧
      ∃ l ∈ (p.classify {}).loops, ∃ it count value, l.descriptor.iteratorVar? = some it ∧
        l.descriptor.tripCount = .ok count ∧ count.mentions it.id = true ∧
        (Expr.literal .none (.int 0)).mentions it.id = false ∧
        l.descriptor.valueAt (.literal .none (.int 0)) = .ok value ∧
        value.mentions it.id = true := by
  refine (exists_of_read (P := fun p => (p.classify {}).loops.any fun l =>
    l.descriptor.mentionsIterator) ?_).imp fun p h => ⟨h.1, ?_⟩
  · decide +kernel
  · obtain ⟨l, hl, hmentions⟩ := List.any_eq_true.mp h.2
    refine ⟨l, hl, ?_⟩
    unfold Descriptor.mentionsIterator at hmentions
    split at hmentions
    · next it count value hit hcount hvalue =>
      obtain ⟨h₁, h₂⟩ := Bool.and_eq_true_iff.mp hmentions
      exact ⟨it, count, value, hit, hcount, h₁, rfl, hvalue, h₂⟩
    · cases hmentions

end LoopNest
