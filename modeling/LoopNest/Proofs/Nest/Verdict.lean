import LoopNest.Proofs.Nest.Accepted
import LoopNest.Proofs.Nest.Rules

/-!
# What a check that goes on finds

A check that does not stop at the first rejection finds for each mapped loop, in the order of
the source, what the rules say of the loop where it stands. The flags that the walk carries say
of the statements around a loop what the rules ask for.

* `Nesting.of`: the nesting of a statement with those statements around it.
* `Stmt.events_eq`: the events of a statement are those of the loops placed in it.
* `Function.errors_events`, `Function.loops_events`: the rejections and the accepted loops among
  the events of a kernel.
-/

namespace LoopNest

/-! ## The nesting of a statement -/

/-- The nesting of a statement with those statements around it. -/
def Nesting.of (around : List Stmt) : Nesting :=
  ⟨around.any (Stmt.isMappedTo .outer), around.any (Stmt.isMappedTo .inner),
    around.countP Stmt.isMappedLoop⟩

theorem Nesting.of_cons_mapped {s : Stmt} {level : Level} {mark : Attribute}
    (hloop : s.isLoop = true) (hlevel : s.level? = some (level, mark)) (around : List Stmt) :
    Nesting.of (s :: around) = (Nesting.of around).enter level := by
  have hmapped : s.isMappedLoop = true := by simp [Stmt.isMappedLoop, hloop, hlevel]
  have hto (l : Level) : s.isMappedTo l = (level == l) := by
    simp [Stmt.isMappedTo, hloop, hlevel]
  simp [Nesting.of, Nesting.enter, hmapped, hto, Bool.or_comm]

theorem Nesting.of_cons_unmapped {s : Stmt} (h : s.isMappedLoop = false) (around : List Stmt) :
    Nesting.of (s :: around) = Nesting.of around := by
  have hto (l : Level) : s.isMappedTo l = false := by
    simp only [Stmt.isMappedLoop, Bool.and_eq_false_iff] at h
    rcases h with h | h
    · simp [Stmt.isMappedTo, h]
    · cases hl : s.level? <;> simp_all [Stmt.isMappedTo]
  simp [Nesting.of, h, hto]

/-! ## The events of placed loops -/

def PlacedLoop.events (k : Site) (o : PlacedLoop) : List Event :=
  k.loop (Nesting.of o.around) o.head o.level o.mark o.loop

namespace Stmt

theorem placedLoops_eq (around : List Stmt) (s : Stmt) :
    s.placedLoops around =
      (Occurrence.mapped? ⟨around, s⟩).toList ++
        s.children.flatMap (placedLoops (s :: around)) := by
  rw [placedLoops, occurrences_eq, List.filterMap_cons, List.filterMap_flatMap]
  cases Occurrence.mapped? ⟨around, s⟩ <;> rfl

theorem mapped?_of_unmapped {s : Stmt} (h : s.isMappedLoop = false) (around : List Stmt) :
    Occurrence.mapped? ⟨around, s⟩ = none := by
  unfold isMappedLoop isLoop at h
  cases hloop : s.loop? with
  | none => simp [Occurrence.mapped?, hloop]
  | some l =>
    have hlevel : s.level? = none := by simpa [hloop] using h
    simp [Occurrence.mapped?, hlevel]

theorem isMappedLoop_of_leaf {s : Stmt} (h : s.children = []) : s.isMappedLoop = false := by
  cases s with
  | forLoop head i c u b => cases h
  | _ => rfl

theorem placedLoops_of_leaf {s : Stmt} (h : s.children = []) (around : List Stmt) :
    s.placedLoops around = [] := by
  rw [placedLoops_eq, mapped?_of_unmapped (isMappedLoop_of_leaf h), h]
  rfl

/-- A statement that is no mapped loop has the events of the statements below it. -/
theorem events_of_unmapped {s : Stmt} (h : s.isMappedLoop = false) (k : Site) (n : Nesting) :
    s.events k n = s.children.flatMap (events k n) := by
  cases s with
  | forLoop head i c u b =>
    have hlevel : (forLoop head i c u b).level? = none := by
      simpa [isMappedLoop, isLoop, loop?] using h
    simp [events, hlevel, children]
  | block head body => simp [events, children, eventsAll_eq]
  | _ => simp [events, children]

/-- The events of a statement are those of the mapped loops in it, each with the nesting that
the statements around it make. -/
theorem events_eq (k : Site) {s : Stmt} (hs : s.PlainHeaders) (around : List Stmt) :
    s.events k (Nesting.of around) = (s.placedLoops around).flatMap (PlacedLoop.events k) := by
  induction s using children_induction generalizing around with
  | step s ih =>
    obtain ⟨hheader, hbelow⟩ := (plainHeaders_iff s).mp hs
    rw [placedLoops_eq, List.flatMap_append, List.flatMap_assoc]
    cases hmapped : s.isMappedLoop with
    | false =>
      rw [events_of_unmapped hmapped, mapped?_of_unmapped hmapped]
      refine List.flatMap_congr fun t ht => ?_
      rw [← ih t ht (hbelow t ht), Nesting.of_cons_unmapped hmapped]
    | true =>
      obtain ⟨head, i, c, u, b, rfl⟩ : ∃ head i c u b, s = forLoop head i c u b := by
        cases s with
        | forLoop head i c u b => exact ⟨head, i, c, u, b, rfl⟩
        | _ => cases hmapped
      obtain ⟨⟨level, mark⟩, hlevel⟩ :=
        Option.isSome_iff_exists.mp (Bool.and_eq_true_iff.mp hmapped).2
      have hplain := hheader ⟨i, c, u, b⟩ rfl
      have hbody := ih b (by simp [children]) (hbelow b (by simp [children]))
        (forLoop head i c u b :: around)
      rw [Nesting.of_cons_mapped rfl hlevel] at hbody
      simp only [events, hlevel, Occurrence.mapped?, children, loop?, Option.bind_some,
        Option.map_some, Option.toList_some, List.flatMap_cons, List.flatMap_nil,
        List.append_nil, placedLoops_of_leaf hplain.init, placedLoops_of_leaf hplain.check,
        placedLoops_of_leaf hplain.update, List.nil_append, hbody]
      rfl

end Stmt

/-! ## Rejections and accepted loops among the events -/

theorem Stmt.isMappedLoop_iff (s : Stmt) :
    s.isMappedLoop = true ↔ s.isMappedTo .outer = true ∨ s.isMappedTo .inner = true := by
  unfold isMappedLoop isMappedTo
  cases s.level? with
  | none => simp
  | some m =>
    obtain ⟨level, mark⟩ := m
    cases level <;> simp

namespace PlacedLoop

theorem within_iff (o : PlacedLoop) (l : Level) :
    o.Within l ↔ o.around.any (Stmt.isMappedTo l) = true :=
  List.any_eq_true.symm

theorem forall_not_isMappedLoop_iff (o : PlacedLoop) :
    (∀ s ∈ o.around, ¬ s.isMappedLoop) ↔ ¬ o.Within .outer ∧ ¬ o.Within .inner := by
  simp only [Stmt.isMappedLoop_iff, not_or, Within, not_exists, not_and, imp_and, forall_and]

theorem errors_position (k : Site) (o : PlacedLoop) :
    (k.position (Nesting.of o.around) o.level o.mark o.loop.body).filterMap Event.rejection? =
      o.misplacements.map (Broken.rejection k.label) := by
  have hin : (Nesting.of o.around).inInner = true ↔ o.Within .inner := (o.within_iff _).symm
  have hout : (Nesting.of o.around).inOuter = true ↔ o.Within .outer := (o.within_iff _).symm
  have hnest : (!(Nesting.of o.around).inOuter &&
      !o.loop.body.statements.any (Stmt.isMappedTo .inner)) = true ↔
        ¬ o.Within .outer ∧ ∀ s ∈ o.loop.body.statements, ¬ s.isMappedTo .inner := by
    rw [← hout, Bool.and_eq_true_iff]
    simp only [Bool.not_eq_true', Bool.not_eq_true, List.any_eq_false]
  unfold Site.position misplacements
  simp only [hin, hout, hnest, forall_not_isMappedLoop_iff]
  cases o.level with
  | outer =>
    by_cases hi : o.Within .inner
    · simp [hi, Site.rejection, Event.rejection?, Broken.rejection]
    · simp only [hi, if_false, not_false_eq_true, and_true, true_and, false_and, reduceCtorEq,
        and_false, List.nil_append]
      split <;> rfl
  | inner =>
    by_cases ho : o.Within .outer
    · simp [ho]
    · simp [ho, Site.rejection, Event.rejection?, Broken.rejection]

theorem shadowing?_eq (body : Stmt) (v : VarRef) :
    body.shadowing? v = (body.declarators.filter fun e => e.Shadows v).head? := by
  rw [List.head?_filter]
  unfold Stmt.shadowing? Stmt.declarators
  congr 1
  funext e
  rw [Bool.eq_iff_iff, decide_eq_true_eq]
  simp [Declarator.Shadows, VarRef.sameVar]

theorem errors_iterator (k : Site) (d : Declarator) (body : Stmt) :
    (k.initializer d ++ k.shadowing d body).filterMap Event.rejection? =
      (d.breaches body).map (Broken.rejection k.label) := by
  have hinit : (k.initializer d).filterMap Event.rejection? =
      (if d.value.isNone then [(.missingInitializer d.var.name, d.span)] else []).map
        (Broken.rejection k.label) := by
    unfold Site.initializer
    cases d.value <;> rfl
  have hshadow : (k.shadowing d body).filterMap Event.rejection? =
      ((((body.declarators.filter fun e => e.Shadows d.var).take 1).map fun e =>
        (.shadowedIterator d.var.name, e.span)).map (Broken.rejection k.label)) := by
    unfold Site.shadowing
    rw [shadowing?_eq]
    cases body.declarators.filter fun e => e.Shadows d.var <;> rfl
  rw [List.filterMap_append, Declarator.breaches, List.map_append, hinit, hshadow]

theorem errors_header (k : Site) (o : PlacedLoop) :
    (k.header (o.loop.describe k.vars k.label) o.loop.body).filterMap Event.rejection? =
      o.headerRejections k.vars k.label := by
  unfold Site.header headerRejections
  dsimp only
  cases hf : (o.loop.describe k.vars k.label).failure with
  | some r => simp [Event.rejection?, hf]
  | none =>
    have hquiet : Event.rejection? (.described (o.loop.describe k.vars k.label)) = none := hf
    rw [List.filterMap_cons_none hquiet]
    cases (o.loop.describe k.vars k.label).iterator with
    | none => rfl
    | some i => simpa using errors_iterator k i o.loop.body

theorem errors_between (k : Site) (o : PlacedLoop) :
    (k.between o.level o.loop.body).filterMap Event.rejection? =
      o.intruders.map (Broken.rejection k.label) := by
  unfold Site.between intruders Site.rejectionsBetween
  rw [Stmt.direct_eq]
  have hany : o.loop.body.directly.any (Stmt.isMappedTo o.level) = true ↔
      ∃ s ∈ o.loop.body.directly, s.isMappedTo o.level := List.any_eq_true
  have hkeep (s : Stmt) : (!s.mayStandBetween) =
      decide (¬ (s.isDeclaration ∨ s.isMappedLoop ∨ s.isEmpty)) := by
    rw [Bool.eq_iff_iff, decide_eq_true_eq]
    simp [Stmt.mayStandBetween, and_assoc]
  simp only [hany, hkeep]
  split
  · simp [List.filterMap_map, Function.comp_def, Site.rejection, Event.rejection?,
      Broken.rejection, List.map_map]
  · rfl

theorem errors_checks (k : Site) (o : PlacedLoop) :
    (k.checks (Nesting.of o.around) o.level o.mark o.loop).filterMap Event.rejection? =
      o.rejections k.vars k.label := by
  rw [Site.checks, List.filterMap_append, List.filterMap_append, errors_position, errors_header,
    errors_between, rejections]

/-- The loop as it is accepted in that kernel. -/
def mapped (o : PlacedLoop) (k : Site) : MappedLoop :=
  ⟨k.kernel, o.level, o.mark.dimension?, o.depth, o.head.span, o.loop.describe k.vars k.label⟩

theorem errors_events (k : Site) (o : PlacedLoop) :
    (o.events k).filterMap Event.rejection? = o.rejections k.vars k.label := by
  rw [events, Site.loop, List.cons_append, List.filterMap_cons_none rfl, List.filterMap_append,
    errors_checks]
  split <;> simp [Event.rejection?]

theorem loops_events (k : Site) (o : PlacedLoop) :
    (o.events k).filterMap Event.loop? =
      if o.Sound k.vars k.label then [o.mapped k] else [] := by
  have hsound : (k.checks (Nesting.of o.around) o.level o.mark o.loop).any Event.isRejection =
      false ↔ o.Sound k.vars k.label := by
    rw [← rejections_eq_nil_iff, ← errors_checks, ← Classification.errors_eq_nil_iff]
    rfl
  rw [events, Site.loops_loop]
  by_cases h : o.Sound k.vars k.label
  · rw [if_pos h, hsound.mpr h]
    rfl
  · rw [if_neg h, Bool.of_not_eq_false (mt hsound.mp h)]
    rfl

end PlacedLoop

namespace Function

/-- The events of a kernel are those of its marks, of the search for an `@outer` loop and of
the loops placed in it. -/
theorem events_eq {f : Function} (hf : f.PlainHeaders) (vars : VarTable) (label : String) :
    let k : Site := ⟨f.name, vars, label⟩
    f.events vars label =
      .entered f.name :: (k.misplaced (f.body.allStatements.filterMap Stmt.misplaced?) ++
        (k.outerLoop f ++ f.placedLoops.flatMap (PlacedLoop.events k))) := by
  intro k
  have hbody : Stmt.eventsAll k {} f.body.statements =
      f.placedLoops.flatMap (PlacedLoop.events k) := by
    rw [Stmt.eventsAll_eq, placedLoops, List.flatMap_assoc]
    exact List.flatMap_congr fun s hs => Stmt.events_eq k (hf s hs) []
  rw [events, hbody, List.cons_append, List.cons_append, List.append_assoc]

theorem errors_misplaced (k : Site) (f : Function) :
    (k.misplaced (f.body.allStatements.filterMap Stmt.misplaced?)).filterMap Event.rejection? =
      f.misplacedMarks.map (Broken.rejection k.label) := by
  unfold Site.misplaced misplacedMarks
  rw [List.map_filterMap, List.filterMap_filter, List.map_filterMap, List.filterMap_filterMap]
  refine List.filterMap_congr fun s _ => ?_
  unfold Stmt.misplaced?
  cases s.isLoop <;> cases s.level? <;> rfl

theorem errors_outerLoop (k : Site) (f : Function) :
    (k.outerLoop f).filterMap Event.rejection? = f.missingOuter.map (Broken.rejection k.label) := by
  have hnone : (∀ s ∈ f.body.allStatements, ¬ s.isMappedTo .outer) ↔
      ¬ f.body.allStatements.any (Stmt.isMappedTo .outer) = true := by
    simp only [Bool.not_eq_true, List.any_eq_false]
  unfold Site.outerLoop missingOuter
  simp only [hnone]
  by_cases h : f.body.allStatements.any (Stmt.isMappedTo .outer) = true
  · rw [if_pos h, if_neg (not_not.mpr h)]
    rfl
  · rw [if_neg h, if_pos h]
    rfl

/-- The rejections among the events of a kernel are those of the rules. -/
theorem errors_events {f : Function} (hf : f.PlainHeaders) (vars : VarTable) (label : String) :
    (f.events vars label).filterMap Event.rejection? = f.rejections vars label := by
  rw [events_eq hf, List.filterMap_cons_none rfl, List.filterMap_append, List.filterMap_append,
    List.filterMap_flatMap, errors_misplaced, errors_outerLoop, rejections, List.append_assoc]
  simp only [PlacedLoop.errors_events]

/-- The accepted loops among the events of a kernel are those that break no rule. -/
theorem loops_events {f : Function} (hf : f.PlainHeaders) (vars : VarTable) (label : String) :
    (f.events vars label).filterMap Event.loop? =
      (f.placedLoops.filter fun o => o.Sound vars label).map fun o =>
        o.mapped ⟨f.name, vars, label⟩ := by
  have hmarks (k : Site) (marks : List (Level × Attribute)) :
      (k.misplaced marks).filterMap Event.loop? = [] := by
    rw [Site.misplaced, List.filterMap_map]
    exact List.filterMap_eq_nil_iff.mpr fun _ _ => rfl
  have houter (k : Site) : (k.outerLoop f).filterMap Event.loop? = [] := by
    unfold Site.outerLoop
    split <;> rfl
  rw [events_eq hf, List.filterMap_cons_none rfl, List.filterMap_append, List.filterMap_append,
    List.filterMap_flatMap, hmarks, houter]
  have hone (o : PlacedLoop) :
      (if o.Sound vars label then [o.mapped ⟨f.name, vars, label⟩] else []) =
        (if o.Sound vars label then some (o.mapped ⟨f.name, vars, label⟩) else none).toList := by
    split <;> rfl
  simp only [PlacedLoop.loops_events, hone, List.nil_append]
  rw [← List.filterMap_eq_flatMap_toList, ← List.filterMap_eq_map, List.filterMap_filter]
  simp only [decide_eq_true_eq, Function.comp_apply]

end Function

end LoopNest
