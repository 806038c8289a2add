import LoopNest.Proofs.Grammar.PlainHeaders
import LoopNest.Proofs.Nest.Verdict

/-!
# Checks that go on

A check that goes on behind the first rejection finds what the rules say, loop by loop. This is
said of programs that were read: only their headers are known to be plain.

* `Function.classify_batch`: the errors of a check are the rejections of the rules.
* `Program.classify_batch_loops`: the loops of a check are those that break no rule.
-/

namespace LoopNest

/-- **A check finds every broken rule once.** The errors of a check that goes on are, for each
statement with a misplaced level, for the kernel and for each mapped loop in it, one rejection
for each rule that is broken there. So the check succeeds exactly if no rule is broken. -/
theorem Function.classify_batch {source : String} {p : Program}
    (hp : Program.read source = .ok p) {f : Function} (hf : f ∈ p.functions)
    (config : CheckConfig) :
    let c := f.classify p.vars { config with mode := .batch }
    c.errors = f.rejections p.vars config.label ∧
      (c.isOk = true ↔ f.Sound p.vars config.label) := by
  intro c
  have herrors : c.errors = f.rejections p.vars config.label := by
    have hc : c = ⟨f.events p.vars config.label⟩ := f.classify_eq p.vars _
    rw [hc]
    exact errors_events (Program.plainHeaders_of_read hp f hf) p.vars config.label
  refine ⟨herrors, ?_⟩
  rw [Classification.isOk, herrors, List.isEmpty_iff]
  exact f.rejections_eq_nil_iff p.vars config.label

/-- Five rules are broken by one kernel, three of them by its one loop. -/
theorem Function.classify_batch_five_rejections :
    ∃ p, Program.read "@kernel void f(int n) {
        @inner for (int i; i < n; i++) { int i = 0; @outer n = 1; } }" = .ok p ∧
      ∃ f ∈ p.functions,
        let c := f.classify p.vars { mode := .batch }
        c.errors.map Rejection.violation =
            [.attributeOnNonLoop .outer, .missingOuterLoop "f", .innerOutsideOuter,
              .missingInitializer "i", .shadowedIterator "i"] ∧
          c.errors = f.rejections p.vars "" ∧ (c.isOk = true ↔ f.Sound p.vars "") := by
  refine (Program.exists_of_read (P := fun p => p.functions.any fun f =>
    (f.rejections p.vars "").map Rejection.violation ==
      [.attributeOnNonLoop .outer, .missingOuterLoop "f", .innerOutsideOuter,
        .missingInitializer "i", .shadowedIterator "i"]) ?_).imp fun p h => ⟨h.1, ?_⟩
  · decide +kernel
  · obtain ⟨f, hf, hviolations⟩ := List.any_eq_true.mp h.2
    obtain ⟨herrors, hok⟩ := classify_batch h.1 hf { mode := .batch }
    refine ⟨f, hf, ?_, herrors, hok⟩
    rw [herrors]
    exact eq_of_beq hviolations

/-- **A check accepts the loops that break no rule.** The loops of a check that goes on are, for
one kernel after the other and in the order of the source, the mapped loops that break no rule
themselves, each with the number of mapped loops around it. -/
theorem Program.classify_batch_loops {source : String} {p : Program}
    (hp : Program.read source = .ok p) (config : CheckConfig) :
    (p.classify { config with mode := .batch }).loops =
      p.kernels.flatMap fun f =>
        (f.placedLoops.filter fun o => o.Sound p.vars config.label).map fun o =>
          o.mapped ⟨f.name, p.vars, config.label⟩ := by
  rw [classify_eq]
  change (p.kernels.flatMap fun f => f.events p.vars config.label).filterMap Event.loop? = _
  rw [List.filterMap_flatMap]
  refine List.flatMap_congr fun f hf => ?_
  have hread : f ∈ p.functions := List.mem_of_mem_filter hf
  exact Function.loops_events (plainHeaders_of_read hp f hread) p.vars config.label

/-- The outermost loop lacks an initial value, and it counts for the depth of those inside. A
`while` loop does not count. -/
theorem Program.classify_batch_loops_nested :
    ∃ p, Program.read "@kernel void f(int n) { @outer for (int i; i < n; i++) while (n)
        @outer for (int j = 0; j < n; j++) { @inner for (int k = 0; k < n; k++) ; } }" = .ok p ∧
      let loops := (p.classify { mode := .batch }).loops
      loops.map (fun l => (l.level, l.depth)) = [(.outer, 1), (.inner, 2)] ∧
        loops = p.kernels.flatMap fun f =>
          (f.placedLoops.filter fun o => o.Sound p.vars "").map fun o =>
            o.mapped ⟨f.name, p.vars, ""⟩ := by
  refine (exists_of_read (P := fun p =>
    (p.kernels.flatMap fun f => (f.placedLoops.filter fun o => o.Sound p.vars "").map fun o =>
      (o.level, o.depth)) == [(.outer, 1), (.inner, 2)]) ?_).imp fun p h => ⟨h.1, ?_⟩
  · decide +kernel
  · have hloops := classify_batch_loops h.1 { mode := .batch }
    refine ⟨?_, hloops⟩
    rw [hloops, List.map_flatMap]
    simp only [List.map_map]
    exact eq_of_beq h.2

end LoopNest
