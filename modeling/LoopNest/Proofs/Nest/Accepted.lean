import LoopNest.Proofs.Grammar.Yields
import LoopNest.Proofs.Header.Facts
import LoopNest.Proofs.Nest.Events
import LoopNest.Proofs.Stmt.Occurrence

/-!
# Accepted loops

A loop is accepted if its own checks reject nothing, whatever they reject in other loops. Its
descriptor then has all facts that the arithmetic asks for.

* `Site.loops_loop`: what is accepted among the events of a loop.
* `Stmt.mem_events`: every event of a statement is one of a mapped loop in it.
* `Function.loop_of_mem_events`: an accepted loop is one of the function, and its descriptor has all
  facts.
* `Program.accepted_loop_ready`: there is arithmetic and a summary for every accepted loop.
* `Program.check_loops`: hence no accepted loop is missing in a report.
-/

namespace LoopNest

/-! ## The checks of one loop -/

namespace Site

variable (k : Site) (n : Nesting) (head : StmtHead) (level : Level) (mark : Attribute) (loop : Loop)

/-- The checks of a loop accept nothing: only their outcome does. -/
theorem loops_checks : (k.checks n level mark loop).filterMap Event.loop? = [] := by
  have hposition : (k.position n level mark loop.body).filterMap Event.loop? = [] := by
    unfold position
    cases level with
    | outer =>
      dsimp only
      split
      · rfl
      · split <;> rfl
    | inner =>
      dsimp only
      split <;> rfl
  have hheader :
      (k.header (loop.describe k.vars k.label) loop.body).filterMap Event.loop? = [] := by
    rw [header, List.filterMap_cons_none rfl]
    split
    · rw [List.filterMap_append]
      unfold initializer shadowing
      split <;> split <;> rfl
    · rfl
  have hbetween : (k.between level loop.body).filterMap Event.loop? = [] := by
    unfold between rejectionsBetween
    split
    · rw [List.filterMap_map]
      exact List.filterMap_eq_nil_iff.mpr fun _ _ => rfl
    · rfl
  rw [checks, List.filterMap_append, List.filterMap_append, hposition, hheader, hbetween]
  rfl

/-- A loop is accepted exactly if its checks reject nothing. -/
theorem loops_loop :
    (k.loop n head level mark loop).filterMap Event.loop? =
      if (k.checks n level mark loop).any Event.isRejection then []
      else [k.mapped n head level mark loop] := by
  rw [Site.loop, List.cons_append, List.filterMap_cons_none rfl, List.filterMap_append,
    loops_checks, List.nil_append]
  split <;> rfl

variable {k n level mark loop}

/-- If the checks of a loop reject nothing, then its header was read without a failure, and its
iterator has an initial value. -/
theorem ready_of_checks (h : (k.checks n level mark loop).any Event.isRejection = false) :
    (loop.describe k.vars k.label).Ready := by
  have hall : ∀ e ∈ k.header (loop.describe k.vars k.label) loop.body, e.isRejection = false := by
    intro e he
    have hmem : e ∈ k.checks n level mark loop := by
      rw [checks]
      exact List.mem_append_left _ (List.mem_append_right _ he)
    exact Bool.eq_false_iff.mpr (List.any_eq_false.mp h e hmem)
  have hvalid : (loop.describe k.vars k.label).isValid = true := by
    have hdescribed := hall (.described (loop.describe k.vars k.label)) List.mem_cons_self
    simpa [Event.isRejection, Event.rejection?, Descriptor.isValid] using hdescribed
  obtain ⟨d, op, comparison, b, step, _, _, _, _, hd⟩ := Loop.describe_of_isValid hvalid
  refine Loop.ready_of_isValid hvalid ?_
  by_contra hnone
  have hvalue : d.value.isNone = true := by
    rw [hd] at hnone
    simpa [Descriptor.init?] using hnone
  have hmissing : k.rejection (.missingInitializer d.var.name) d.span ∈
      k.header (loop.describe k.vars k.label) loop.body := by
    rw [hd, header]
    simp [initializer, hvalue]
  cases hall _ hmissing

end Site

/-! ## Accepted loops of a statement -/

namespace Stmt

variable {k : Site} {e : Event}

/-- An event of a statement is one of the statement itself, if that is a mapped loop, or one of
a statement directly below it. -/
theorem mem_events_cases {n : Nesting} {s : Stmt} (he : e ∈ s.events k n) :
    (∃ level mark loop, s.loop? = some loop ∧ s.level? = some (level, mark) ∧
      e ∈ k.loop n s.head level mark loop) ∨ ∃ t ∈ s.children, ∃ n', e ∈ t.events k n' := by
  cases s with
  | forLoop head i c u b =>
    rw [events] at he
    split at he
    · next level mark hlevel =>
      rcases List.mem_append.mp he with he | he
      · exact .inl ⟨level, mark, ⟨i, c, u, b⟩, rfl, hlevel, he⟩
      · exact .inr ⟨b, by simp [children], _, he⟩
    · refine .inr ?_
      simp only [List.mem_append] at he
      rcases he with he | he | he | he
      · exact ⟨i, by simp [children], n, he⟩
      · exact ⟨c, by simp [children], n, he⟩
      · exact ⟨u, by simp [children], n, he⟩
      · exact ⟨b, by simp [children], n, he⟩
  | block head body =>
    rw [events, eventsAll_eq] at he
    obtain ⟨t, ht, he⟩ := List.mem_flatMap.mp he
    exact .inr ⟨t, ht, n, he⟩
  | ifThen head c t =>
    rw [events] at he
    exact .inr ⟨t, by simp [children], n, he⟩
  | ifElse head c t u =>
    rw [events] at he
    rcases List.mem_append.mp he with he | he
    · exact .inr ⟨t, by simp [children], n, he⟩
    · exact .inr ⟨u, by simp [children], n, he⟩
  | whileLoop head c body =>
    rw [events] at he
    exact .inr ⟨body, by simp [children], n, he⟩
  | declaration _ _ | expression _ _ | returns _ _ | empty _ => cases he

/-- Every event of a statement is one of a mapped loop in it. -/
theorem mem_events {n : Nesting} {s : Stmt} (he : e ∈ s.events k n) :
    ∃ t ∈ s.statements, ∃ n' level mark loop, t.loop? = some loop ∧
      t.level? = some (level, mark) ∧ e ∈ k.loop n' t.head level mark loop := by
  induction s using children_induction generalizing n with
  | step s ih =>
    rw [statements_eq]
    rcases mem_events_cases he with ⟨level, mark, loop, hloop, hlevel, he⟩ | ⟨t, ht, n', he⟩
    · exact ⟨s, List.mem_cons_self, n, level, mark, loop, hloop, hlevel, he⟩
    · obtain ⟨u, hu, hloop⟩ := ih t ht he
      exact ⟨u, List.mem_cons_of_mem _ (List.mem_flatMap.mpr ⟨t, ht, hu⟩), hloop⟩

end Stmt

/-- An accepted loop is a loop of the function, and its descriptor has all facts. -/
theorem Function.loop_of_mem_events {f : Function} {vars : VarTable} {label : String}
    {l : MappedLoop} (h : .accepted l ∈ f.events vars label) :
    ∃ s ∈ f.body.allStatements, ∃ loop, s.loop? = some loop ∧
      l.descriptor = loop.describe vars label ∧ l.descriptor.Ready := by
  let k : Site := ⟨f.name, vars, label⟩
  have hbody : .accepted l ∈ Stmt.eventsAll k {} f.body.statements := by
    rw [events, List.mem_append, List.mem_append] at h
    rcases h with (h | h) | h
    · simp [Site.misplaced, Site.rejection] at h
    · unfold Site.outerLoop at h
      split at h <;> simp [Site.rejection] at h
    · exact h
  rw [Stmt.eventsAll_eq] at hbody
  obtain ⟨s, hs, hevent⟩ := List.mem_flatMap.mp hbody
  obtain ⟨t, ht, n, level, mark, loop, hloop, _, he⟩ := Stmt.mem_events hevent
  have haccepted : l ∈ (k.loop n t.head level mark loop).filterMap Event.loop? :=
    List.mem_filterMap.mpr ⟨.accepted l, he, rfl⟩
  rw [Site.loops_loop] at haccepted
  split at haccepted
  · cases haccepted
  · next hclean =>
    obtain rfl := List.mem_singleton.mp haccepted
    exact ⟨t, Block.mem_allStatements.mpr ⟨s, hs, ht⟩, loop, hloop, rfl,
      Site.ready_of_checks (Bool.eq_false_iff.mpr hclean)⟩

/-- What is accepted in a check was accepted in one of its events. -/
theorem Classification.accepted_of_mem_loops {mode : CheckMode} {es : List Event} {l : MappedLoop}
    (h : l ∈ (⟨mode.cut es⟩ : Classification).loops) : .accepted l ∈ es := by
  obtain ⟨e, he, hl⟩ := List.mem_filterMap.mp h
  cases e with
  | accepted l' =>
    obtain rfl : l' = l := Option.some.inj hl
    exact (mode.cut_prefix es).subset he
  | entered _ | passed _ _ | described _ | rejected _ _ _ => cases hl

theorem Function.ready_of_mem_loops {f : Function} {vars : VarTable} {config : CheckConfig}
    {l : MappedLoop} (h : l ∈ (f.classify vars config).loops) : l.descriptor.Ready := by
  rw [classify_eq] at h
  obtain ⟨_, _, _, _, _, hready⟩ := loop_of_mem_events (Classification.accepted_of_mem_loops h)
  exact hready

/-- An accepted loop is a loop of one of the functions, and its descriptor has all facts. -/
theorem Program.loop_of_mem_loops {p : Program} {config : CheckConfig} {l : MappedLoop}
    (h : l ∈ (p.classify config).loops) :
    ∃ f ∈ p.functions, ∃ s ∈ f.body.allStatements, ∃ loop, s.loop? = some loop ∧
      l.descriptor = loop.describe p.vars config.label ∧ l.descriptor.Ready := by
  rw [classify_eq] at h
  obtain ⟨f, hf, he⟩ := List.mem_flatMap.mp (Classification.accepted_of_mem_loops h)
  exact ⟨f, List.mem_of_mem_filter hf, Function.loop_of_mem_events he⟩

theorem Program.ready_of_mem_loops {p : Program} {config : CheckConfig} {l : MappedLoop}
    (h : l ∈ (p.classify config).loops) : l.descriptor.Ready := by
  obtain ⟨_, _, _, _, _, _, _, hready⟩ := loop_of_mem_loops h
  exact hready

/-! ## Summaries -/

/-- **Accepted loops have their arithmetic.** Whatever else a check rejects, and whether it
stops there or not: a loop that it accepts has all facts in its descriptor, and neither the
number of iterations nor the value of the iterator at an index nor the summary is an error. -/
theorem Program.accepted_loop_ready (p : Program) (config : CheckConfig) (l : MappedLoop)
    (h : l ∈ (p.classify config).loops ∨
      ∃ f : Function, l ∈ (f.classify p.vars config).loops) (index : Expr) :
    l.descriptor.Ready ∧ (∃ count, l.descriptor.tripCount = .ok count) ∧
      (∃ value, l.descriptor.valueAt index = .ok value) ∧ ∃ s, l.summary index = .ok s := by
  have hready : l.descriptor.Ready := by
    rcases h with h | ⟨f, h⟩
    · exact ready_of_mem_loops h
    · exact Function.ready_of_mem_loops h
  exact ⟨hready, hready.tripCount, hready.valueAt index, MappedLoop.summary_of_ready hready index⟩

/-- A loop without an initial value does not keep the loop inside it from its summary. -/
theorem Program.accepted_loop_ready_beside_errors :
    ∃ p, Program.read "@kernel void f(int n) { @outer for (int i; i < n; i++)
        @inner for (int j = 0; j < n; j += 2) ; }" = .ok p ∧
      (p.classify { mode := .batch }).isOk = false ∧
      ∃ l ∈ (p.classify { mode := .batch }).loops, ∀ index,
        l.descriptor.Ready ∧ (∃ count, l.descriptor.tripCount = .ok count) ∧
          (∃ value, l.descriptor.valueAt index = .ok value) ∧ ∃ s, l.summary index = .ok s := by
  refine (exists_of_read (P := fun p => !(p.classify { mode := .batch }).isOk &&
    !(p.classify { mode := .batch }).loops.isEmpty) ?_).imp fun p h => ⟨h.1, ?_⟩
  · decide +kernel
  · obtain ⟨hok, hloops⟩ := Bool.and_eq_true_iff.mp h.2
    obtain ⟨l, hl⟩ := List.exists_mem_of_ne_nil _ (by simpa using hloops)
    exact ⟨by simpa using hok, l, hl, accepted_loop_ready p _ l (.inl hl)⟩

/-- A report has the summary of every accepted loop, in the same order. -/
theorem Program.check_loops (p : Program) (config : CheckConfig) :
    let (index, p') := p.withIndex config.flatIndex
    List.Forall₂ (fun l s => l.summary index = .ok s) (p'.classify config).loops
      (p.check config).1.loops := by
  have hall (index : Expr) (ls : List MappedLoop)
      (hls : ∀ l ∈ ls, ∃ s, l.summary index = .ok s) :
      List.Forall₂ (fun l s => l.summary index = .ok s) ls
        (ls.filterMap fun l => (l.summary index).toOption) := by
    induction ls with
    | nil => exact .nil
    | cons l ls ih =>
      obtain ⟨s, hs⟩ := hls l List.mem_cons_self
      have hkeep : (l :: ls).filterMap (fun l => (l.summary index).toOption) =
          s :: ls.filterMap fun l => (l.summary index).toOption :=
        List.filterMap_cons_some (by rw [hs]; rfl)
      rw [hkeep]
      exact .cons hs (ih fun l' hl' => hls l' (List.mem_cons_of_mem _ hl'))
  exact hall _ _ fun l hl => MappedLoop.summary_of_ready (ready_of_mem_loops hl) _

end LoopNest
