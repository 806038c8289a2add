import LoopNest.Proofs.Grammar.Yields
import LoopNest.Proofs.Stmt.Occurrence

/-!
# Headers as they are read

Syntax trees could have any statement as a clause of a `for` header. The grammar only makes
clauses that have no statements below them.

* `Grammar.forRest_yields`: the header of a loop that was read is plain.
* `Grammar.statement_yields`: so are all headers in a statement that was read.
* `Program.plainHeaders_of_read`: so are all headers in a program.
-/

namespace LoopNest

namespace Grammar

open Parse

/-! ## Clauses -/

theorem initClause_yields : initClause.Yields fun s => s.children = [] := by
  unfold initClause
  refine .after _ fun start => .after _ fun omitted => ?_
  split
  · exact .pure rfl
  · refine .after _ fun r => ?_
    split
    · exact .after _ fun ds => .after _ fun span => .pure rfl
    · exact .after _ fun x => .after _ fun _ => .pure rfl

theorem clause_yields (stops : List Symbol) : (clause stops).Yields fun s => s.children = [] := by
  unfold clause
  refine .after _ fun r => ?_
  split
  · exact .pure rfl
  · exact .after _ fun x => .pure rfl

/-! ## Statements -/

section

variable {statement : Parse Stmt} (h : statement.Yields Stmt.PlainHeaders)
include h

/-- The header is plain, and the headers in the body are as plain as those of any statement
inside the loop. -/
theorem forRest_yields :
    (forRest statement).Yields fun r => r.2.PlainHeader ∧ r.2.body.PlainHeaders := by
  unfold forRest
  refine initClause_yields.bind fun init hinit => ?_
  refine (clause_yields _).bind fun check hcheck => .after _ fun _ => ?_
  refine (clause_yields _).bind fun update hupdate => ?_
  refine .after _ fun marks => .after _ fun _ => h.bind fun body hbody => ?_
  exact .pure ⟨⟨hinit, hcheck, hupdate⟩, hbody⟩

theorem forStatement_yields (marks : List Attribute) :
    (forStatement statement marks).Yields Stmt.PlainHeaders := by
  unfold forStatement
  refine .after _ fun start => .after _ fun _ => .after _ fun _ => ?_
  refine (forRest_yields h).inScope.bind fun r hr => .after _ fun span => ?_
  obtain ⟨hheader, hbody⟩ := hr
  refine .pure ((Stmt.plainHeaders_iff _).mpr ⟨fun l hl => ?_, fun t ht => ?_⟩)
  · cases hl
    exact hheader
  · simp only [Stmt.children, List.mem_cons, List.not_mem_nil, or_false] at ht
    rcases ht with rfl | rfl | rfl | rfl
    · exact .of_children_eq_nil hheader.init
    · exact .of_children_eq_nil hheader.check
    · exact .of_children_eq_nil hheader.update
    · exact hbody

theorem block_yields :
    (block statement).Yields fun b => ∀ s ∈ b.statements, s.PlainHeaders := by
  have hitem : (blockItem statement).Yields fun item => ∀ o ∈ item, ∀ s ∈ o, s.PlainHeaders :=
    h.item
  unfold block
  refine .after _ fun start => .after _ fun _ => ?_
  refine hitem.items.inScope.bind fun items hitems => ?_
  exact .after _ fun _ => .after _ fun span => .pure hitems

theorem statementRest_yields (marks : List Attribute) :
    (statementRest statement marks).Yields Stmt.PlainHeaders := by
  have hbelow {s : Stmt} (hloop : s.loop? = none) (hs : ∀ t ∈ s.children, t.PlainHeaders) :
      s.PlainHeaders :=
    (Stmt.plainHeaders_iff s).mpr ⟨fun l hl => absurd (hloop ▸ hl) (by simp), hs⟩
  have hleaf {s : Stmt} (hs : s.children = []) : s.PlainHeaders := .of_children_eq_nil hs
  unfold statementRest
  refine .after _ fun start => .after _ fun r => ?_
  split
  · exact forStatement_yields h marks
  · refine (block_yields h).bind fun b hb => .after _ fun head => ?_
    exact .pure (hbelow rfl hb)
  · refine .after _ fun c => h.bind fun thenBranch hthen => .after _ fun hasElse => ?_
    split
    · refine h.bind fun elseBranch helse => .after _ fun head => .pure (hbelow rfl ?_)
      simp only [Stmt.children, List.forall_mem_cons]
      exact ⟨hthen, helse, by simp⟩
    · refine .after _ fun head => .pure (hbelow rfl ?_)
      simpa only [Stmt.children, List.forall_mem_singleton] using hthen
  · refine .after _ fun c => h.bind fun body hbody => .after _ fun head => .pure (hbelow rfl ?_)
    simpa only [Stmt.children, List.forall_mem_singleton] using hbody
  · refine .after _ fun _ => .after _ fun value => .after _ fun _ => .after _ fun head => ?_
    exact .pure (hleaf rfl)
  · exact .after _ fun _ => .after _ fun head => .pure (hleaf rfl)
  · exact .after _ fun ds => .after _ fun head => .pure (hleaf rfl)
  · exact .after _ fun x => .after _ fun _ => .after _ fun head => .pure (hleaf rfl)

end

theorem statementFor_yields (rounds : List Item) :
    (statementFor rounds).Yields Stmt.PlainHeaders := by
  induction rounds with
  | nil => exact .fail _
  | cons _ rounds ih => exact .after _ fun marks => statementRest_yields ih marks

theorem statement_yields : statement.Yields Stmt.PlainHeaders :=
  .after _ fun r => statementFor_yields r.remaining

/-! ## Functions and programs -/

theorem function_yields : function.Yields Function.PlainHeaders := by
  have hrest : functionRest.Yields fun r => ∀ s ∈ r.2.statements, s.PlainHeaders := by
    unfold functionRest
    refine .after _ fun _ => .after _ fun params => .after _ fun _ => ?_
    exact (block_yields statement_yields).bind fun body hbody => .pure hbody
  unfold function
  refine .after _ fun marks => .after _ fun start => .after _ fun type => .after _ fun name => ?_
  refine hrest.inScope.bind fun r hbody => .after _ fun span => ?_
  exact .pure hbody

theorem functions_yields : functions.Yields fun fs => ∀ f ∈ fs, f.PlainHeaders := by
  have hitem : programItem.Yields fun item => ∀ o ∈ item, ∀ f ∈ o, f.PlainHeaders :=
    function_yields.item
  unfold functions
  exact hitem.items.bind fun items hitems => .pure hitems

end Grammar

theorem Program.plainHeaders_of_read {source : String} {p : Program}
    (hp : Program.read source = .ok p) : ∀ f ∈ p.functions, f.PlainHeaders :=
  forall_functions_of_read Grammar.functions_yields hp

end LoopNest
