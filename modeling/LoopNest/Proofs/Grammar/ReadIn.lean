import LoopNest.Expr.Text
import LoopNest.Grammar.Expr
import LoopNest.Proofs.Stmt.Occurrence
import LoopNest.Proofs.Token.Order
import LoopNest.Proofs.Variable.Context

/-!
# What the grammar reads

The trees that come of reading a text, without the text: their form, and what the names in them
stand for.

* `Expr.Grammatical`: an operand binds as tightly as its place asks for, and names are names.
* `Expr.refs`, `Stmt.refs`: the references to variables in a tree.
* `Stmt.ReadIn`, `Function.ReadIn`: the tree may be read where names have their meaning in one
  context, and then they have their meaning in the other one. The sizes of arrays are not in the tree;
  `sizes` tells which names they use.
* `Stmt.ReadIn.of_mem_statements`: so it is for every statement inside.
-/

namespace LoopNest

/-! ## Expressions -/

/-- A literal has no sign, and a whole number is not too large. -/
def Literal.Grammatical : Literal → Prop
  | .int n => ∃ m : Nat, n = m ∧ m ≤ Grammar.maxInteger
  | .float x => ∃ d, x = .ofDecimal false d
  | .bool _ => True

namespace Expr

mutual

/-- No operand needs parentheses that it does not have, and all names are names. -/
def Grammatical : Expr → Prop
  | var _ v => Text.IsName v.name
  | literal _ value => value.Grammatical
  | unaryBefore _ _ x => 8 ≤ x.binding ∧ x.Grammatical
  | unaryBehind _ op x => (op = .increment ∨ op = .decrement) ∧ 9 ≤ x.binding ∧ x.Grammatical
  | binary _ op l r => (leftLevel op ≤ l.binding ∧ l.Grammatical) ∧
      rightLevel op ≤ r.binding ∧ r.Grammatical
  | parentheses _ x => x.Grammatical
  | subscript _ a i => (9 ≤ a.binding ∧ a.Grammatical) ∧ i.Grammatical
  | call _ f args => Text.IsName f ∧ GrammaticalAll args

def GrammaticalAll : List Expr → Prop
  | [] => True
  | x :: xs => x.Grammatical ∧ GrammaticalAll xs

end

theorem grammaticalAll_iff (xs : List Expr) : GrammaticalAll xs ↔ ∀ x ∈ xs, x.Grammatical := by
  induction xs with
  | nil => simp [GrammaticalAll]
  | cons x xs ih => simp [GrammaticalAll, ih]

theorem nodesAll_eq (xs : List Expr) : nodesAll xs = xs.flatMap nodes := by
  induction xs with
  | nil => rfl
  | cons x xs ih => rw [nodesAll, ih, List.flatMap_cons]

mutual

/-- The parts of an expression have the form that the grammar asks for, as it does. -/
theorem Grammatical.nodes : ∀ {x : Expr}, x.Grammatical → ∀ y ∈ x.nodes, y.Grammatical
  | var _ _, hx => List.forall_mem_singleton.mpr hx
  | literal _ _, hx => List.forall_mem_singleton.mpr hx
  | unaryBefore _ _ _, hx => List.forall_mem_cons.mpr ⟨hx, hx.2.nodes⟩
  | unaryBehind _ _ _, hx => List.forall_mem_cons.mpr ⟨hx, hx.2.2.nodes⟩
  | binary _ _ _ _, hx =>
    List.forall_mem_cons.mpr ⟨hx, List.forall_mem_append.mpr ⟨hx.1.2.nodes, hx.2.2.nodes⟩⟩
  | parentheses _ x, hx => List.forall_mem_cons.mpr ⟨hx, Grammatical.nodes (x := x) hx⟩
  | subscript _ _ _, hx =>
    List.forall_mem_cons.mpr ⟨hx, List.forall_mem_append.mpr ⟨hx.1.2.nodes, hx.2.nodes⟩⟩
  | call _ _ _, hx => List.forall_mem_cons.mpr ⟨hx, grammaticalAll_nodes hx.2⟩

theorem grammaticalAll_nodes : ∀ {xs : List Expr}, GrammaticalAll xs →
    ∀ y ∈ nodesAll xs, y.Grammatical
  | [], _ => fun _ hy => absurd hy List.not_mem_nil
  | _ :: _, hxs =>
    List.forall_mem_append.mpr ⟨hxs.1.nodes, grammaticalAll_nodes hxs.2⟩

end

/-- The references to variables, from left to right. -/
def refs (x : Expr) : List VarRef := x.nodes.filterMap var?

section

variable (s : Span)

@[simp] theorem refs_var (v : VarRef) : (var s v).refs = [v] := rfl

@[simp] theorem refs_literal (value : Literal) : (literal s value).refs = [] := rfl

@[simp] theorem refs_unaryBefore (op : UnaryOp) (x : Expr) : (unaryBefore s op x).refs = x.refs :=
  rfl

@[simp] theorem refs_unaryBehind (op : UnaryOp) (x : Expr) : (unaryBehind s op x).refs = x.refs :=
  rfl

@[simp] theorem refs_binary (op : BinaryOp) (l r : Expr) :
    (binary s op l r).refs = l.refs ++ r.refs := by
  rw [refs, nodes, List.filterMap_cons_none rfl, List.filterMap_append]
  rfl

@[simp] theorem refs_parentheses (x : Expr) : (parentheses s x).refs = x.refs := rfl

@[simp] theorem refs_subscript (a i : Expr) : (subscript s a i).refs = a.refs ++ i.refs := by
  rw [refs, nodes, List.filterMap_cons_none rfl, List.filterMap_append]
  rfl

@[simp] theorem refs_call (f : String) (args : List Expr) :
    (call s f args).refs = args.flatMap refs := by
  rw [refs, nodes, List.filterMap_cons_none rfl, nodesAll_eq, List.filterMap_flatMap]
  rfl

end

end Expr

/-- The expressions are read one after the other. -/
def Context.Reads (c : Context) (xs : List Expr) (c' : Context) : Prop :=
  (∀ x ∈ xs, x.Grammatical) ∧ c.Refers (xs.flatMap Expr.refs) c'

/-- The attributes are read one after the other. -/
def Context.ReadsMarks (c : Context) (marks : List Attribute) (c' : Context) : Prop :=
  (∀ a ∈ marks, Text.IsName a.name) ∧ c.Reads (marks.flatMap Attribute.args) c'

namespace Context

variable {c c₁ c' : Context} {xs ys : List Expr}

theorem Reads.nil (c : Context) : c.Reads [] c := ⟨by simp, .nil c⟩

theorem Reads.append (h : c.Reads xs c₁) (h' : c₁.Reads ys c') : c.Reads (xs ++ ys) c' := by
  refine ⟨fun x hx => ?_, ?_⟩
  · rcases List.mem_append.mp hx with hx | hx
    · exact h.1 x hx
    · exact h'.1 x hx
  · rw [List.flatMap_append]
    exact h.2.append h'.2

theorem Reads.single {x : Expr} (hx : x.Grammatical) (h : c.Refers x.refs c') : c.Reads [x] c' :=
  ⟨by simpa using hx, by simpa using h⟩

theorem reads_of_chain (h : Chain (fun c x c' => x.Grammatical ∧ c.Refers x.refs c') c xs c') :
    c.Reads xs c' := by
  induction h with
  | nil => exact .nil _
  | cons first _ ih => exact (Reads.single first.1 first.2).append ih

end Context

/-! ## Statements -/

/-- The names are those in the brackets behind the name of the variable, by its place. -/
def Context.Sized (sizes : Span → List String) (c : Context) (v : VarRef) (vs : List VarRef) : Prop :=
  ∃ x, c.vars.get? v.id = some x ∧ vs.map VarRef.name = sizes x.span

section

variable (sizes : Span → List String)

/-- The sizes of the arrays and the initial value are read before the variable is declared. -/
def Declarator.ReadIn (base : BaseType) (c : Context) (d : Declarator) (c' : Context) : Prop :=
  ∃ vs c₁ c₂ type, c.Refers vs c₁ ∧ c₁.Reads d.value.toList c₂ ∧ Text.IsName d.var.name ∧
    type.base = base ∧ c₂.Declares d.var type c' ∧ c'.Sized sizes d.var vs

/-- A parameter is declared like a variable without an initial value. -/
def VarRef.ReadIn (c : Context) (v : VarRef) (c' : Context) : Prop :=
  ∃ vs c₁ type, c.Refers vs c₁ ∧ Text.IsName v.name ∧ c₁.Declares v type c' ∧ c'.Sized sizes v vs

/-- The attribute starts behind the start of the statement: it stands in the header. -/
def StmtHead.HasInside (h : StmtHead) (a : Attribute) : Prop :=
  h.span.start.offset < a.span.start.offset

namespace Stmt

/-- Behind the statement, `else` would go with an `if` in it. -/
def isOpen : Stmt → Bool
  | ifThen _ _ _ => true
  | ifElse _ _ _ e => e.isOpen
  | forLoop _ _ _ _ body | whileLoop _ _ body => body.isOpen
  | declaration _ _ | expression _ _ | block _ _ | returns _ _ | empty _ => false

/-- A second or third clause of a header. -/
def IsClause : Stmt → Prop
  | expression h _ | empty h => h.attributes = []
  | _ => False

/-- A first clause of a header. -/
def IsInit : Stmt → Prop
  | declaration h _ | expression h _ | empty h => h.attributes = []
  | _ => False

mutual

/-- The statement is read where names stand for what they do in the first context, and names
behind it stand for what they do in the second one. -/
def ReadIn : Stmt → Context → Context → Prop
  | declaration h ds, c, c' => ∃ c₁ base, c.ReadsMarks h.attributes c₁ ∧ ds ≠ [] ∧
      c₁.Chain (Declarator.ReadIn sizes base) ds c'
  | expression h x, c, c' => ∃ c₁, c.ReadsMarks h.attributes c₁ ∧ c₁.Reads [x] c'
  | forLoop h i k u b, c, c' => ∃ before behind c₁ c₂ c₃ c₄ c₅ c₆,
      (h.attributes = before ++ behind ∧ (∀ a ∈ before, ¬ h.HasInside a) ∧
        ∀ a ∈ behind, h.HasInside a) ∧
      c.ReadsMarks before c₁ ∧ (i.IsInit ∧ i.ReadIn c₁.push c₂) ∧ (k.IsClause ∧ k.ReadIn c₂ c₃) ∧
      (u.IsClause ∧ u.ReadIn c₃ c₄) ∧ c₄.ReadsMarks behind c₅ ∧ b.ReadIn c₅ c₆ ∧ c' = c₆.pop
  | block h ss, c, c' => ∃ c₁ c₂, c.ReadsMarks h.attributes c₁ ∧ ReadAllIn ss c₁.push c₂ ∧
      c' = c₂.pop
  | ifThen h x t, c, c' => ∃ c₁ c₂, c.ReadsMarks h.attributes c₁ ∧ c₁.Reads [x] c₂ ∧
      t.ReadIn c₂ c'
  | ifElse h x t e, c, c' => ∃ c₁ c₂ c₃, c.ReadsMarks h.attributes c₁ ∧ c₁.Reads [x] c₂ ∧
      (t.isOpen = false ∧ t.ReadIn c₂ c₃) ∧ e.ReadIn c₃ c'
  | whileLoop h x b, c, c' => ∃ c₁ c₂, c.ReadsMarks h.attributes c₁ ∧ c₁.Reads [x] c₂ ∧
      b.ReadIn c₂ c'
  | returns h v, c, c' => ∃ c₁, c.ReadsMarks h.attributes c₁ ∧ c₁.Reads v.toList c'
  | empty h, c, c' => c.ReadsMarks h.attributes c'

def ReadAllIn : List Stmt → Context → Context → Prop
  | [], c, c' => c' = c
  | s :: ss, c, c' => ∃ c₁, s.ReadIn c c₁ ∧ ReadAllIn ss c₁ c'

end

end Stmt

/-- The parameters and the body lie in scopes of their own. -/
def Function.ReadIn (c : Context) (f : Function) (c' : Context) : Prop :=
  ∃ c₁ c₂ c₃, c.ReadsMarks f.attributes c₁ ∧ Text.IsName f.name ∧
    c₁.push.Chain (VarRef.ReadIn sizes) f.params c₂ ∧
    Stmt.ReadAllIn sizes f.body.statements c₂.push c₃ ∧ c' = c₃.pop.pop

end

end LoopNest
