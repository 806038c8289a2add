import LoopNest.Grammar.Problem
import LoopNest.Grammar.Stmt
import LoopNest.Proofs.Header.Relabel

/-!
# Programs without places

What is left of a tree, of a table of variables and of a problem if it is not said where they stand
in a source text.

* `Expr.unplaced`, `Stmt.unplaced`, `Function.unplaced`, `Program.unplaced`: trees without spans.
* `Expr.unplaced_joinLeft`, `Expr.unplaced_withSuffix`: the grammar builds them from parts without
  spans.
* `VarTable.unplaced`: the variables without the places where they were declared.
* `Problem.unplaced`: a problem without its place.
-/

namespace LoopNest

/-! ## Expressions -/

namespace Expr

/-- The expression without its spans. -/
def unplaced (x : Expr) : Expr := x.relabel id

@[simp] theorem unplaced_var (s : Span) (v : VarRef) : (var s v).unplaced = var .none v := rfl

@[simp] theorem unplaced_literal (s : Span) (value : Literal) :
    (literal s value).unplaced = literal .none value := rfl

@[simp] theorem unplaced_unaryBefore (s : Span) (op : UnaryOp) (x : Expr) :
    (unaryBefore s op x).unplaced = unaryBefore .none op x.unplaced := rfl

@[simp] theorem unplaced_unaryBehind (s : Span) (op : UnaryOp) (x : Expr) :
    (unaryBehind s op x).unplaced = unaryBehind .none op x.unplaced := rfl

@[simp] theorem unplaced_parentheses (s : Span) (x : Expr) :
    (parentheses s x).unplaced = parentheses .none x.unplaced := rfl

@[simp] theorem unplaced_subscript (s : Span) (a i : Expr) :
    (subscript s a i).unplaced = subscript .none a.unplaced i.unplaced := rfl

@[simp] theorem unplaced_call (s : Span) (f : String) (args : List Expr) :
    (call s f args).unplaced = call .none f (args.map unplaced) :=
  congrArg (call .none f) (relabelAll_eq id args)

@[simp] theorem unplaced_join (l : Expr) (op : BinaryOp) (r : Expr) :
    (l.join op r).unplaced = binary .none op l.unplaced r.unplaced := rfl

/-- An operator with an operand without spans. -/
def unplacedOperand (next : BinaryOp × Expr) : BinaryOp × Expr := (next.1, next.2.unplaced)

/-- Operands that are the same but for spans make the same expression. -/
theorem unplaced_joinLeft {first first' : Expr} {rest rest' : List (BinaryOp × Expr)}
    (h : first.unplaced = first'.unplaced)
    (hrest : rest.map unplacedOperand = rest'.map unplacedOperand) :
    (first.joinLeft rest).unplaced = (first'.joinLeft rest').unplaced := by
  induction rest generalizing first first' rest' with
  | nil =>
    obtain rfl : rest' = [] := List.map_eq_nil_iff.mp hrest.symm
    exact h
  | cons next rest ih =>
    cases rest' with
    | nil => cases hrest
    | cons next' rest' =>
      obtain ⟨hnext, hrest⟩ := List.cons.inj hrest
      obtain ⟨hop, hx⟩ := Prod.mk.inj hnext
      have hjoin : (first.join next.1 next.2).unplaced =
          (first'.join next'.1 next'.2).unplaced := by
        rw [unplaced_join, unplaced_join, h, hop, hx]
      have htail := ih hjoin hrest
      exact htail

theorem unplaced_joinRight {first first' : Expr} {rest rest' : List (BinaryOp × Expr)}
    (h : first.unplaced = first'.unplaced)
    (hrest : rest.map unplacedOperand = rest'.map unplacedOperand) :
    (first.joinRight rest).unplaced = (first'.joinRight rest').unplaced := by
  induction rest generalizing first first' rest' with
  | nil =>
    obtain rfl : rest' = [] := List.map_eq_nil_iff.mp hrest.symm
    exact h
  | cons next rest ih =>
    cases rest' with
    | nil => cases hrest
    | cons next' rest' =>
      obtain ⟨hnext, hrest⟩ := List.cons.inj hrest
      obtain ⟨hop, hx⟩ := Prod.mk.inj hnext
      have htail := ih hx hrest
      dsimp only [joinRight]
      rw [unplaced_join, unplaced_join, h, hop, htail]

theorem unplaced_withOperatorsBefore {ops ops' : List (UnaryOp × Span)} {x x' : Expr}
    (hops : ops.map Prod.fst = ops'.map Prod.fst) (h : x.unplaced = x'.unplaced) :
    (x.withOperatorsBefore ops).unplaced = (x'.withOperatorsBefore ops').unplaced := by
  induction ops generalizing ops' with
  | nil =>
    obtain rfl : ops' = [] := List.map_eq_nil_iff.mp hops.symm
    exact h
  | cons op ops ih =>
    cases ops' with
    | nil => cases hops
    | cons op' ops' =>
      obtain ⟨hop, hops⟩ := List.cons.inj hops
      have htail := ih hops
      dsimp only [withOperatorsBefore] at htail ⊢
      rw [List.foldr_cons, List.foldr_cons, unplaced_unaryBefore, unplaced_unaryBefore, hop, htail]

/-- What stands behind an operand, without spans. -/
def Suffix.unplaced : Suffix → Suffix
  | operator op _ => operator op .none
  | subscript index _ => subscript index.unplaced .none

theorem unplaced_withSuffix {x x' : Expr} {s s' : Suffix} (h : x.unplaced = x'.unplaced)
    (hs : s.unplaced = s'.unplaced) : (x.withSuffix s).unplaced = (x'.withSuffix s').unplaced := by
  cases s with
  | operator op stop =>
    cases s' with
    | operator op' stop' =>
      obtain ⟨rfl, -⟩ := Suffix.operator.inj hs
      rw [withSuffix, withSuffix, unplaced_unaryBehind, unplaced_unaryBehind, h]
    | subscript _ _ => cases hs
  | subscript i stop =>
    cases s' with
    | operator _ _ => cases hs
    | subscript i' stop' =>
      obtain ⟨hi, -⟩ := Suffix.subscript.inj hs
      rw [withSuffix, withSuffix, unplaced_subscript, unplaced_subscript, h, hi]

theorem unplaced_withSuffixes {x x' : Expr} {ss ss' : List Suffix} (h : x.unplaced = x'.unplaced)
    (hss : ss.map Suffix.unplaced = ss'.map Suffix.unplaced) :
    (ss.foldl withSuffix x).unplaced = (ss'.foldl withSuffix x').unplaced := by
  induction ss generalizing x x' ss' with
  | nil =>
    obtain rfl : ss' = [] := List.map_eq_nil_iff.mp hss.symm
    exact h
  | cons s ss ih =>
    cases ss' with
    | nil => cases hss
    | cons s' ss' =>
      obtain ⟨hs, hss⟩ := List.cons.inj hss
      have htail := ih (unplaced_withSuffix h hs) hss
      exact htail

end Expr

/-! ## Statements and functions -/

def Attribute.unplaced (a : Attribute) : Attribute := a.relabel (.all id)

def Declarator.unplaced (d : Declarator) : Declarator := d.relabel (.all id)

def StmtHead.unplaced (h : StmtHead) : StmtHead := h.relabel (.all id)

/-- The statement without its spans. -/
def Stmt.unplaced (s : Stmt) : Stmt := s.relabel (.all id)

def Loop.unplaced (l : Loop) : Loop := l.relabel (.all id)

def Block.unplaced (b : Block) : Block := b.relabel (.all id)

/-- The function without its spans. -/
def Function.unplaced (f : Function) : Function := f.relabel (.all id)

theorem Attribute.unplaced_mk (name : String) (args : List Expr) (s : Span) :
    (⟨name, args, s⟩ : Attribute).unplaced = ⟨name, args.map Expr.unplaced, .none⟩ := rfl

theorem Declarator.unplaced_mk (v : VarRef) (value : Option Expr) (s : Span) :
    (⟨v, value, s⟩ : Declarator).unplaced = ⟨v, value.map Expr.unplaced, .none⟩ := rfl

theorem StmtHead.unplaced_mk (s : Span) (marks : List Attribute) :
    (⟨s, marks⟩ : StmtHead).unplaced = ⟨.none, marks.map Attribute.unplaced⟩ := rfl

namespace Stmt

variable (h : StmtHead)

@[simp] theorem unplaced_declaration (ds : List Declarator) :
    (declaration h ds).unplaced = declaration h.unplaced (ds.map Declarator.unplaced) := rfl

@[simp] theorem unplaced_expression (x : Expr) :
    (expression h x).unplaced = expression h.unplaced x.unplaced := rfl

@[simp] theorem unplaced_forLoop (i c u b : Stmt) : (forLoop h i c u b).unplaced =
    forLoop h.unplaced i.unplaced c.unplaced u.unplaced b.unplaced := rfl

@[simp] theorem unplaced_block (ss : List Stmt) :
    (block h ss).unplaced = block h.unplaced (ss.map unplaced) :=
  congrArg (block h.unplaced) (relabelAll_eq _ ss)

@[simp] theorem unplaced_ifThen (x : Expr) (t : Stmt) :
    (ifThen h x t).unplaced = ifThen h.unplaced x.unplaced t.unplaced := rfl

@[simp] theorem unplaced_ifElse (x : Expr) (t e : Stmt) :
    (ifElse h x t e).unplaced = ifElse h.unplaced x.unplaced t.unplaced e.unplaced := rfl

@[simp] theorem unplaced_whileLoop (x : Expr) (b : Stmt) :
    (whileLoop h x b).unplaced = whileLoop h.unplaced x.unplaced b.unplaced := rfl

@[simp] theorem unplaced_returns (value : Option Expr) :
    (returns h value).unplaced = returns h.unplaced (value.map Expr.unplaced) := rfl

@[simp] theorem unplaced_empty : (empty h).unplaced = empty h.unplaced := rfl

end Stmt

theorem Function.unplaced_mk (name : String) (type : VarType) (params : List VarRef) (body : Block)
    (marks : List Attribute) (s : Span) :
    (⟨name, type, params, body, marks, s⟩ : Function).unplaced =
      ⟨name, type, params, body.unplaced, marks.map Attribute.unplaced, .none⟩ := by
  have hparams : params.map (VarRef.relabel id) = params := by
    rw [List.map_congr_left fun v _ => (rfl : v.relabel id = v), List.map_id']
  change Function.mk name type (params.map (VarRef.relabel id)) _ _ _ = _
  rw [hparams]
  rfl

/-! ## Variables and problems -/

/-- The variable without the place where it was declared or first used. -/
def Variable.unplaced (v : Variable) : Variable := { v with span := .none }

/-- The table without places. -/
def VarTable.unplaced (t : VarTable) : VarTable := ⟨t.entries.map Variable.unplaced⟩

namespace VarTable

theorem size_unplaced (t : VarTable) : t.unplaced.size = t.size := Array.size_map

theorem get?_unplaced (t : VarTable) (id : Nat) :
    t.unplaced.get? id = (t.get? id).map Variable.unplaced := Array.getElem?_map

theorem type?_unplaced (t : VarTable) (id : Nat) : t.unplaced.type? id = t.type? id := by
  rw [type?, type?, get?_unplaced, Option.map_map]
  rfl

theorem unplaced_add (t : VarTable) (v : Variable) :
    (t.add v).2.unplaced = (t.unplaced.add v.unplaced).2 :=
  congrArg VarTable.mk (Array.map_push ..)

theorem size_eq_of_unplaced {t t' : VarTable} (h : t.unplaced = t'.unplaced) :
    t.size = t'.size := by
  rw [← size_unplaced, h, size_unplaced]

/-- The same variable at other places gets the same number. -/
theorem add_unplaced {t t' : VarTable} (h : t.unplaced = t'.unplaced) {v v' : Variable}
    (hv : v.unplaced = v'.unplaced) :
    (t.add v).1 = (t'.add v').1 ∧ (t.add v).2.unplaced = (t'.add v').2.unplaced := by
  have hname : v.unplaced.name = v'.unplaced.name := congrArg Variable.name hv
  have hname : v.name = v'.name := hname
  refine ⟨?_, ?_⟩
  · rw [add, add, size_eq_of_unplaced h, hname]
  · rw [unplaced_add, unplaced_add, h, hv]

theorem declare_unplaced {t t' : VarTable} (h : t.unplaced = t'.unplaced) (n : String)
    (type : VarType) (span span' : Span) :
    (t.declare n type span).1 = (t'.declare n type span').1 ∧
      (t.declare n type span).2.unplaced = (t'.declare n type span').2.unplaced := by
  have hv : Variable.unplaced ⟨n, type, span, false⟩ = Variable.unplaced ⟨n, type, span', false⟩ :=
    rfl
  exact add_unplaced h hv

theorem declareImplicit_unplaced {t t' : VarTable} (h : t.unplaced = t'.unplaced) (n : String)
    (span span' : Span) :
    (t.declareImplicit n span).1 = (t'.declareImplicit n span').1 ∧
      (t.declareImplicit n span).2.unplaced = (t'.declareImplicit n span').2.unplaced := by
  have hv : Variable.unplaced ⟨n, .int, span, true⟩ = Variable.unplaced ⟨n, .int, span', true⟩ :=
    rfl
  exact add_unplaced h hv

end VarTable

/-- The problem without its place. -/
def Problem.unplaced (p : Problem) : Problem := { p with span := .none }

/-- The program without its spans. -/
def Program.unplaced (p : Program) : Program :=
  ⟨p.functions.map Function.unplaced, p.vars.unplaced, .none⟩

end LoopNest
