import LoopNest.Proofs.Grammar.Mentions
import LoopNest.Proofs.Nest.Iterator
import LoopNest.Proofs.Stmt.Preorder

/-!
# Visitors of statements

A visitor comes by the nodes of a tree. At each of them it may change its state, and it may leave out
what is below the node. One that leaves out nothing comes by every node once. A search for statements
goes through the tree by the statements directly below each other, and a search for a variable ends
where the variable is found: both find what such a visitor comes by.

* `Visitor`, `Visitor.stmt`, `Visitor.expr`: a visitor and its way through a tree.
* `Visitor.observer`, `Visitor.observer_stmt`: the way of a visitor that leaves out nothing.
* `Visitor.finder`, `Visitor.finder_expr`: the search for a variable.
* `Stmt.find`, `Stmt.find_eq`: the search for statements.
* `Stmt.traversals_agree`: all of them agree.
-/

namespace LoopNest

/-! ## Visitors -/

/-- What becomes of the state of a visitor at a node, and whether the visitor goes on to what is below
the node. -/
structure Visitor (σ : Type) where
  enter : σ → Visit → σ × Bool

namespace Visitor

section

variable {σ : Type} (v : Visitor σ)

/-- The state behind a node, if `inside` is the way through what is below it. -/
def node (n : Visit) (inside : σ → σ) (st : σ) : σ :=
  let (st, goesOn) := v.enter st n
  if goesOn then inside st else st

mutual

/-- The way through an expression. -/
def expr : Expr → σ → σ
  | .var s w => v.node (.expression (.var s w)) id
  | .literal s value => v.node (.expression (.literal s value)) id
  | .unaryBefore s op x => v.node (.expression (.unaryBefore s op x)) (expr x)
  | .unaryBehind s op x => v.node (.expression (.unaryBehind s op x)) (expr x)
  | .binary s op l r => v.node (.expression (.binary s op l r)) fun st => expr r (expr l st)
  | .parentheses s x => v.node (.expression (.parentheses s x)) (expr x)
  | .subscript s a i => v.node (.expression (.subscript s a i)) fun st => expr i (expr a st)
  | .call s f args => v.node (.expression (.call s f args)) (exprs args)

def exprs : List Expr → σ → σ
  | [] => id
  | x :: xs => fun st => exprs xs (expr x st)

end

/-- The way through a value that may be left out. -/
def value : Option Expr → σ → σ
  | none => id
  | some x => v.expr x

mutual

/-- The way through a statement. -/
def stmt : Stmt → σ → σ
  | .declaration h ds =>
    v.node (.statement (.declaration h ds)) fun st => ds.foldl (fun st d => v.value d.value st) st
  | .expression h x => v.node (.statement (.expression h x)) (v.expr x)
  | .forLoop h i c u b =>
    v.node (.statement (.forLoop h i c u b)) fun st => stmt b (stmt u (stmt c (stmt i st)))
  | .block h body => v.node (.statement (.block h body)) (v.node .block (stmts body))
  | .ifThen h c t => v.node (.statement (.ifThen h c t)) fun st => stmt t (v.expr c st)
  | .ifElse h c t e => v.node (.statement (.ifElse h c t e)) fun st => stmt e (stmt t (v.expr c st))
  | .whileLoop h c b => v.node (.statement (.whileLoop h c b)) fun st => stmt b (v.expr c st)
  | .returns h x => v.node (.statement (.returns h x)) (v.value x)
  | .empty h => v.node (.statement (.empty h)) id

def stmts : List Stmt → σ → σ
  | [] => id
  | s :: ss => fun st => stmts ss (stmt s st)

end

end

/-! ## Visitors that leave out nothing -/

section

variable {σ : Type} (step : σ → Visit → σ)

/-- A visitor that always goes on to what is below a node. -/
def observer : Visitor σ := ⟨fun st n => (step st n, true)⟩

theorem observer_node (n : Visit) (inside : σ → σ) (st : σ) :
    (observer step).node n inside st = inside (step st n) := rfl

mutual

theorem observer_expr : ∀ (x : Expr) (st : σ),
    (observer step).expr x st = x.visits.foldl step st
  | .var _ _, st | .literal _ _, st => by
    rw [expr, observer_node]
    rfl
  | .unaryBefore _ _ x, st | .unaryBehind _ _ x, st | .parentheses _ x, st => by
    rw [expr, observer_node, observer_expr x]
    rfl
  | .binary _ _ l r, st => by
    rw [expr, observer_node, observer_expr l, observer_expr r, ← List.foldl_append, Expr.visits,
      Expr.visits, ← List.map_append]
    rfl
  | .subscript _ a i, st => by
    rw [expr, observer_node, observer_expr a, observer_expr i, ← List.foldl_append, Expr.visits,
      Expr.visits, ← List.map_append]
    rfl
  | .call _ _ args, st => by
    rw [expr, observer_node, observer_exprs args]
    rfl

theorem observer_exprs : ∀ (xs : List Expr) (st : σ),
    (observer step).exprs xs st = ((Expr.nodesAll xs).map .expression).foldl step st
  | [], _ => rfl
  | x :: xs, st => by
    rw [Expr.nodesAll, List.map_append, List.foldl_append, ← observer_exprs xs]
    exact congrArg ((observer step).exprs xs) (observer_expr x st)

end

theorem observer_value (x : Option Expr) (st : σ) :
    (observer step).value x st = (Visit.ofValue x).foldl step st := by
  cases x with
  | none => rfl
  | some x => exact observer_expr step x st

mutual

/-- A visitor that leaves out nothing comes by every visit of a statement. -/
theorem observer_stmt : ∀ (s : Stmt) (st : σ), (observer step).stmt s st = s.visits.foldl step st
  | .declaration _ ds, st => by
    rw [stmt, observer_node, Stmt.visits, List.foldl_cons, List.foldl_flatMap]
    simp only [observer_value]
  | .expression _ x, st => by
    rw [stmt, observer_node, observer_expr]
    rfl
  | .forLoop _ i c u b, st => by
    rw [stmt, observer_node, observer_stmt i, observer_stmt c, observer_stmt u, observer_stmt b,
      Stmt.visits, List.foldl_cons, List.foldl_append, List.foldl_append, List.foldl_append]
  | .block _ body, st => by
    rw [stmt, observer_node, observer_node, observer_stmts body]
    rfl
  | .ifThen _ c t, st => by
    rw [stmt, observer_node, observer_expr, observer_stmt t, Stmt.visits, List.foldl_cons,
      List.foldl_append]
  | .ifElse _ c t e, st => by
    rw [stmt, observer_node, observer_expr, observer_stmt t, observer_stmt e, Stmt.visits,
      List.foldl_cons, List.foldl_append, List.foldl_append]
  | .whileLoop _ c b, st => by
    rw [stmt, observer_node, observer_expr, observer_stmt b, Stmt.visits, List.foldl_cons,
      List.foldl_append]
  | .returns _ x, st => by
    rw [stmt, observer_node, observer_value]
    rfl
  | .empty _, st => by
    rw [stmt, observer_node]
    rfl

theorem observer_stmts : ∀ (ss : List Stmt) (st : σ),
    (observer step).stmts ss st = (Stmt.visitsAll ss).foldl step st
  | [], _ => rfl
  | s :: ss, st => by
    rw [Stmt.visitsAll, List.foldl_append, ← observer_stmts ss]
    exact congrArg ((observer step).stmts ss) (observer_stmt s st)

end

end

/-- A visitor that does nothing but write down what it comes by. -/
def recorder : Visitor (List Visit) := observer fun log n => log ++ [n]

/-! ## The search for a variable -/

/-- The search for a variable. Where it is found the search ends: nothing is done at the nodes that
are left. -/
def finder (id : Nat) : Visitor Bool where
  enter found n :=
    match n with
    | .expression x => if found || x.isVar id then (true, false) else (false, true)
    | _ => (found, true)

theorem finder_node (id : Nat) (x : Expr) (inside : Bool → Bool) (found : Bool) :
    (finder id).node (.expression x) inside found =
      if found || x.isVar id then true else inside false := by
  unfold node finder
  dsimp only
  cases found || x.isVar id <;> rfl

mutual

/-- The search through an expression finds the variable just in case that it is mentioned there. -/
theorem finder_expr (id : Nat) : ∀ (x : Expr) (found : Bool),
    (finder id).expr x found = (found || x.mentions id)
  | .var _ v, found => by
    rw [expr, finder_node]
    cases found <;> cases h : v.id == id <;> simp [Expr.isVar, Expr.mentions, h]
  | .literal _ _, found => by cases found <;> simp [expr, finder_node, Expr.isVar, Expr.mentions]
  | .unaryBefore _ _ x, found | .unaryBehind _ _ x, found | .parentheses _ x, found => by
    cases found <;> simp [expr, finder_node, Expr.isVar, Expr.mentions, finder_expr id x]
  | .binary _ _ l r, found => by
    cases found <;>
      simp [expr, finder_node, Expr.isVar, Expr.mentions, finder_expr id l, finder_expr id r]
  | .subscript _ a i, found => by
    cases found <;>
      simp [expr, finder_node, Expr.isVar, Expr.mentions, finder_expr id a, finder_expr id i]
  | .call _ _ args, found => by
    cases found <;> simp [expr, finder_node, Expr.isVar, Expr.mentions, finder_exprs id args]

theorem finder_exprs (id : Nat) : ∀ (xs : List Expr) (found : Bool),
    (finder id).exprs xs found = (found || Expr.mentionedBy id xs)
  | [], found => by simp [exprs, Expr.mentionedBy]
  | x :: xs, found => by
    simp [exprs, Expr.mentionedBy, finder_expr id x, finder_exprs id xs, Bool.or_assoc]

end

end Visitor

namespace Stmt

/-! ## The search for statements -/

section

variable (wanted : Stmt → Bool)

/-- What was found before, and behind it the statements in a statement that are wanted. -/
def collect (s : Stmt) (found : List Stmt) : List Stmt :=
  s.children.attach.foldl (fun found t => collect t.1 found)
    (if wanted s then found ++ [s] else found)
termination_by sizeOf s
decreasing_by exact sizeOf_lt_of_mem_children t.2

/-- The search for the statements that are wanted, the statement itself included. -/
def find (s : Stmt) : List Stmt := s.collect wanted []

theorem collect_eq (s : Stmt) (found : List Stmt) :
    s.collect wanted found = found ++ s.statements.filter wanted := by
  induction s using children_induction generalizing found with
  | step s ih =>
    have hbelow (found : List Stmt) :
        s.children.foldl (fun found t => t.collect wanted found) found =
          found ++ s.children.flatMap fun t => t.statements.filter wanted := by
      rw [List.foldl_ext _ _ found fun found t ht => ih t ht found, List.foldl_append_eq_append,
        List.flatMap_def]
    rw [collect, List.foldl_attach (f := fun found t => collect wanted t found), hbelow, statements_eq,
      List.filter_cons, List.filter_flatMap]
    split
    · rw [List.append_assoc, List.singleton_append]
    · rfl

/-- The search finds the statements that are wanted, in the order of the source. -/
theorem find_eq (s : Stmt) : s.find wanted = s.statements.filter wanted :=
  (s.collect_eq wanted []).trans (List.nil_append _)

end

/-! ## What a visitor comes by -/

/-- What a visitor comes by in a statement itself, in front of the statements below it. -/
def ownVisits : Stmt → List Visit
  | block _ _ => [.block]
  | s => s.values.flatMap Expr.visits

theorem visitsAll_eq (ss : List Stmt) : visitsAll ss = ss.flatMap visits := by
  induction ss with
  | nil => rfl
  | cons s ss ih => rw [visitsAll, ih, List.flatMap_cons]

theorem ofValue_eq (value : Option Expr) :
    Visit.ofValue value = value.toList.flatMap Expr.visits := by
  cases value <;> simp [Visit.ofValue]

theorem visits_eq (s : Stmt) :
    s.visits = .statement s :: (s.ownVisits ++ s.children.flatMap visits) := by
  cases s <;>
    simp [visits, ownVisits, values, children, visitsAll_eq, ofValue_eq, List.flatMap_assoc]

theorem expression?_visits (x : Expr) : x.visits.filterMap Visit.expression? = x.nodes := by
  rw [Expr.visits, List.filterMap_map]
  exact List.filterMap_some

theorem statement?_visits (x : Expr) : x.visits.filterMap Visit.statement? = [] := by
  rw [Expr.visits, List.filterMap_map]
  exact List.filterMap_none _

theorem statement?_ownVisits (s : Stmt) : s.ownVisits.filterMap Visit.statement? = [] := by
  cases s with
  | block _ _ => rfl
  | _ => simp [ownVisits, List.filterMap_flatMap, statement?_visits]

theorem expression?_ownVisits (s : Stmt) :
    s.ownVisits.filterMap Visit.expression? = s.values.flatMap Expr.nodes := by
  cases s with
  | block _ _ => rfl
  | _ => simp [ownVisits, List.filterMap_flatMap, expression?_visits]

/-- A visitor comes by the statements in a statement, each of them once and in the order of the
source. -/
theorem filterMap_statement?_visits (s : Stmt) :
    s.visits.filterMap Visit.statement? = s.statements := by
  induction s using children_induction with
  | step s ih =>
    have hhead : Visit.statement? (.statement s) = some s := rfl
    rw [visits_eq, List.filterMap_cons_some hhead, List.filterMap_append, statement?_ownVisits,
      List.filterMap_flatMap, List.flatMap_congr ih, List.nil_append, ← statements_eq]

/-- A visitor comes by the nodes of the expressions in each of the statements. -/
theorem filterMap_expression?_visits (s : Stmt) : s.visits.filterMap Visit.expression? =
    s.statements.flatMap fun t => t.values.flatMap Expr.nodes := by
  induction s using children_induction with
  | step s ih =>
    rw [visits_eq, List.filterMap_cons_none rfl, List.filterMap_append, expression?_ownVisits,
      List.filterMap_flatMap, List.flatMap_congr ih, statements_eq, List.flatMap_cons,
      List.flatMap_assoc]

end Stmt

/-- A variable is mentioned if it is a node of the expression. -/
theorem Expr.mentions_iff {id : Nat} {x : Expr} : x.mentions id = true ↔
    ∃ y ∈ x.nodes, ∃ place v, y = var place v ∧ v.id = id := by
  rw [mentions_eq, refs, List.any_filterMap, List.any_eq_true]
  refine exists_congr fun y => and_congr_right fun _ => ?_
  cases y <;> simp [var?]

/-- **All traversals agree.** Take any statement. A visitor that goes on everywhere, whatever it does
to its state, comes by the nodes in `visits`, one after the other. The statements among them are those
that the search for all statements finds, and a search for some statements finds those of them that
are wanted: all statements in the statement, the statement itself first, each of them once and in
preorder, where the clauses of a header stand in front of the body. The expressions among them are, for
one statement after the other, the nodes of its initial values, its condition, its expression or the
value that it returns, each of them once and in preorder. The search for a variable in an expression,
which ends where it finds the variable, tells whether one of the nodes that are visited from the
expression is that variable. -/
theorem Stmt.traversals_agree (s : Stmt) :
    (∀ {σ : Type} (step : σ → Visit → σ) (st : σ),
        (Visitor.observer step).stmt s st = s.visits.foldl step st) ∧
      Visitor.recorder.stmt s [] = s.visits ∧
      s.visits.filterMap Visit.statement? = s.find (fun _ => true) ∧
      (∀ wanted, s.find wanted = s.statements.filter wanted) ∧
      InPreorder PartAt s s.statements ∧
      s.visits.filterMap Visit.expression? =
        s.statements.flatMap (fun t => t.values.flatMap Expr.nodes) ∧
      ∀ x : Expr, Visitor.recorder.expr x [] = x.nodes.map .expression ∧
        InPreorder Expr.PartAt x x.nodes ∧
        ∀ id, (Visitor.finder id).expr x false = x.mentions id ∧
          (x.mentions id = true ↔ ∃ y ∈ x.nodes, ∃ place v, y = .var place v ∧ v.id = id) := by
  have hlog (row : List Visit) : row.foldl (fun log n => log ++ [n]) [] = row := by
    rw [List.foldl_append_eq_append, ← List.flatMap_def, List.flatMap_singleton', List.nil_append]
  refine ⟨fun step => Visitor.observer_stmt step s, ?_, ?_, fun wanted => s.find_eq wanted,
    s.statements_inPreorder, s.filterMap_expression?_visits, fun x => ⟨?_, x.nodes_inPreorder,
      fun id => ⟨?_, Expr.mentions_iff⟩⟩⟩
  · exact (Visitor.observer_stmt _ s []).trans (hlog s.visits)
  · rw [filterMap_statement?_visits, find_eq, List.filter_true]
  · exact (Visitor.observer_expr _ x []).trans (hlog x.visits)
  · rw [Visitor.finder_expr, Bool.false_or]

end LoopNest
