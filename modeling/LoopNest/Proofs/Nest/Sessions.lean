import LoopNest.Proofs.Grammar.Separate
import LoopNest.Proofs.Nest.Options

/-!
# Checks in a row

A check adds the variable for the index to the program that it is given, so the next check of the
program finds another table of variables. All variables of the program are there before the first
check, at places that no check touches, and what is added shows in reports by its name alone. Thus
no check has an effect on another one.

* `Program.checkAll`: checks under one configuration after the other.
* `Program.classify_of_extends`: more variables change nothing in what a check finds.
* `MappedLoop.summary_of_shape`: the number of the index does not show in summaries.
* `Program.check_of_extends`: more variables change nothing in a report.
* `Program.checkAll_of_read`: the reports of checks in a row, and the program that they leave.
-/

namespace LoopNest

/-- The variable for the index in a check. -/
def CheckConfig.indexVariable (config : CheckConfig) : Variable :=
  ⟨config.flatIndex, .int, .none, true⟩

/-- The reports of checks in a row, each on the program that the one before leaves, and the
program behind the last one. -/
def Program.checkAll (p : Program) : List CheckConfig → List Report × Program
  | [] => ([], p)
  | config :: configs =>
    let (report, p) := p.check config
    let (reports, p) := p.checkAll configs
    (report :: reports, p)

/-! ## More variables -/

theorem VarTable.Extends.type?_eq {vars vars' : VarTable} (h : vars.Extends vars') {id : Nat}
    (hid : id < vars.size) : vars'.type? id = vars.type? id := by
  rw [type?, type?, h.get?_eq id hid]

theorem Stmt.firsts_subset (s : Stmt) : s.firsts ⊆ s.declared := by
  intro v hv
  obtain ⟨t, ht, hv⟩ := List.mem_flatMap.mp hv
  obtain ⟨d, hd, rfl⟩ := List.mem_map.mp hv
  exact List.mem_map_of_mem (List.mem_flatMap.mpr ⟨t, ht, List.mem_of_mem_take hd⟩)

namespace Program

variable {p q : Program}

/-- The declared variables are in the table. -/
def InTable (p : Program) : Prop :=
  ∀ f ∈ p.functions, ∀ s ∈ f.body.statements, ∀ v ∈ s.firsts, v.id < p.vars.size

theorem inTable_of_read {source : String} (hp : Program.read source = .ok p) : p.InTable := by
  obtain ⟨c, hchain, hvars⟩ := readIn_of_read hp
  have hname := Function.name?_of_separate (Function.separate_of_chain hchain .initial rfl)
  rw [hvars] at hname
  intro f hf s hs v hv
  have hdeclared : v ∈ f.declared :=
    List.mem_append_right _ (List.mem_flatMap.mpr ⟨s, hs, s.firsts_subset hv⟩)
  exact VarTable.lt_size_of_name? (hname f hf v (f.declared_subset hdeclared))

/-- The program with more variables. -/
structure Extends (p q : Program) : Prop where
  functions : q.functions = p.functions
  vars : p.vars.Extends q.vars

theorem Extends.withIndex (h : p.Extends q) (name : String) : p.Extends (q.withIndex name).2 :=
  ⟨h.functions, h.vars.trans (.add q.vars _)⟩

/-- A check asks for the types of declared variables and for nothing else in the table. -/
theorem classify_of_extends (h : p.Extends q) (hp : p.InTable) (config : CheckConfig) :
    q.classify config = p.classify config := by
  have hkeeps : ∀ f ∈ p.functions, ∀ s ∈ f.body.statements,
      s.KeepsFirsts (.all id) p.vars q.vars := fun f hf s hs v hv =>
    h.vars.type?_eq (hp f hf s hs v hv)
  have hlabel := classify_withLabel h.functions hkeeps (rfl : config.mode = config.mode)
  have hself := p.classify_withLabel_self (rfl : config.mode = config.mode)
  exact congrArg Classification.mk (hlabel.symm.trans hself)

end Program

/-! ## The index -/

/-- The value of an iterator has the same text for indices of the same shape. -/
theorem Descriptor.text_valueAt (d : Descriptor) {index index' : Expr}
    (h : index.shape = index'.shape) :
    (d.valueAt index).map Expr.text = (d.valueAt index').map Expr.text := by
  let σ : Numbering := .plain fun _ => 0
  have htext (index : Expr) :
      ((d.relabel σ).valueAt index.shape).map Expr.text = (d.valueAt index).map Expr.text := by
    have hvalue : (d.relabel σ).valueAt index.shape =
        (d.valueAt index).map (Expr.relabel σ.vars) := d.valueAt_relabel σ index
    rw [hvalue]
    cases d.valueAt index with
    | error e => rfl
    | ok x => exact congrArg Except.ok (x.text_relabel σ.vars)
  rw [← htext index, ← htext index', h]

theorem MappedLoop.summary_of_shape (l : MappedLoop) {index index' : Expr}
    (h : index.shape = index'.shape) : l.summary index = l.summary index' := by
  have htext := l.descriptor.text_valueAt h
  unfold summary
  dsimp only
  cases l.descriptor.tripCount with
  | error e => rfl
  | ok count =>
    cases hvalue : l.descriptor.valueAt index with
    | error e =>
      cases hvalue' : l.descriptor.valueAt index' with
      | error e' =>
        rw [hvalue, hvalue'] at htext
        exact congrArg Except.error (Except.error.inj htext)
      | ok x' =>
        rw [hvalue, hvalue'] at htext
        cases htext
    | ok x =>
      cases hvalue' : l.descriptor.valueAt index' with
      | error e' =>
        rw [hvalue, hvalue'] at htext
        cases htext
      | ok x' =>
        rw [hvalue, hvalue'] at htext
        have hx : x.text = x'.text := Except.ok.inj htext
        show Except.ok _ = Except.ok _
        rw [hx]

theorem Classification.report_of_shape (c : Classification) (config : CheckConfig)
    {index index' : Expr} (h : index.shape = index'.shape) :
    c.report config index = c.report config index' := by
  have hsummaries : (fun l : MappedLoop => (l.summary index).toOption) =
      fun l => (l.summary index').toOption := funext fun l => by rw [l.summary_of_shape h]
  unfold report
  rw [hsummaries]

/-! ## Checks in a row -/

namespace Program

variable {p q : Program}

/-- More variables change nothing in a report: the index of a check has another number then. -/
theorem check_of_extends (h : p.Extends q) (hp : p.InTable) (config : CheckConfig) :
    (q.check config).1 = (p.check config).1 := by
  have hshape : (q.withIndex config.flatIndex).1.shape = (p.withIndex config.flatIndex).1.shape :=
    rfl
  have hself : p.Extends p := ⟨rfl, .refl p.vars⟩
  have hpIndex := classify_of_extends (hself.withIndex config.flatIndex) hp config
  have hqIndex := classify_of_extends (h.withIndex config.flatIndex) hp config
  calc (q.check config).1
      = ((q.withIndex config.flatIndex).2.classify config).report config
          (q.withIndex config.flatIndex).1 := rfl
    _ = (p.classify config).report config (p.withIndex config.flatIndex).1 := by
        rw [hqIndex, Classification.report_of_shape _ config hshape]
    _ = (p.check config).1 := by
        rw [← hpIndex]
        rfl

theorem checkAll_reports (hp : p.InTable) (configs : List CheckConfig) (h : p.Extends q) :
    (q.checkAll configs).1 = configs.map fun config => (p.check config).1 := by
  induction configs generalizing q with
  | nil => rfl
  | cons config configs ih =>
    have hrest := ih (h.withIndex config.flatIndex)
    rw [List.map_cons, ← check_of_extends h hp config]
    exact congrArg _ hrest

/-- Each check adds its variable behind all others. -/
theorem checkAll_program (p : Program) (configs : List CheckConfig) :
    (p.checkAll configs).2 =
      { p with vars.entries :=
          p.vars.entries ++ (configs.map CheckConfig.indexVariable).toArray } := by
  induction configs generalizing p with
  | nil => simp [checkAll]
  | cons config configs ih =>
    have hrest := ih (p.withIndex config.flatIndex).2
    have hentries : (p.withIndex config.flatIndex).2.vars.entries =
        p.vars.entries.push config.indexVariable := rfl
    have hlist : p.vars.entries.push config.indexVariable ++
        (configs.map CheckConfig.indexVariable).toArray =
          p.vars.entries ++ ((config :: configs).map CheckConfig.indexVariable).toArray := by
      simp
    rw [hentries, hlist] at hrest
    exact hrest

/-- **Checks of one program do not interfere.** In a row of checks of a program that was read, each
one has the report of its configuration on the source. They leave the functions as they are, and
one implicit `int` for each check behind the variables of the program. -/
theorem checkAll_of_read {source : String} (hp : Program.read source = .ok p)
    (configs : List CheckConfig) :
    (p.checkAll configs).1.map .ok = configs.map (Report.ofSource source) ∧
      (p.checkAll configs).2 =
        { p with vars.entries :=
            p.vars.entries ++ (configs.map CheckConfig.indexVariable).toArray } := by
  have hreports := checkAll_reports (inTable_of_read hp) configs (.mk rfl (.refl p.vars))
  refine ⟨?_, p.checkAll_program configs⟩
  rw [hreports, List.map_map]
  apply List.map_congr_left
  intro config _
  rw [Report.ofSource, hp]
  rfl

/-- Between two checks that stop at the first rejection there is one that goes on, with an index
that has the name of a parameter. -/
theorem checkAll_of_read_shadowed :
    ∃ source configs p, Program.read source = .ok p ∧
      (p.checkAll configs).1.map (fun r => r.loops.length) = [1, 3, 1] ∧
      (p.checkAll configs).1.map .ok = configs.map (Report.ofSource source) ∧
      (p.checkAll configs).2 =
        { p with vars.entries :=
            p.vars.entries ++ (configs.map CheckConfig.indexVariable).toArray } := by
  refine ⟨"@kernel void f(int n) { @outer for (int i = 0; i < n; i++)
        @inner for (int j = n; j > i; j -= 2) { int j; } }
      @kernel void g() { @outer for (char c = 1; c < 9; ++c)
        @inner for (int k = c; k <= 9; k++) ; }",
    [{}, { mode := .batch, flatIndex := "n" }, {}], ?_⟩
  refine (exists_of_read (P := fun p =>
    (p.checkAll [{}, { mode := .batch, flatIndex := "n" }, {}]).1.map (fun r => r.loops.length) ==
      [1, 3, 1]) ?_).imp fun p h => ⟨h.1, beq_iff_eq.mp h.2, checkAll_of_read h.1 _⟩
  decide +kernel

end Program

end LoopNest
