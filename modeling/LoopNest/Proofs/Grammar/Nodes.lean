import LoopNest.Proofs.Grammar.DerivesStmt
import LoopNest.Proofs.Grammar.Scoping
import LoopNest.Proofs.Token.Extent

/-!
# The nodes of a program

The functions, blocks, statements, declarators, attributes and expressions of a program are the
nodes of a tree. Each is written with tokens of its own, and its parts with some of these.

* `Node.parts`, `Program.HasNode`: the nodes below a node, and all nodes of a program.
* `Node.WrittenAs`: the tokens are those of the node, the attributes in front of it left out.
* `Node.Laid`: a node has the span of its tokens, and so have its parts, one behind the other.
* `Node.Exact`: what this says of a node and the nodes directly below it.
* `Node.Laid.exact`: what is laid is exact.
-/

namespace LoopNest

open Token

/-! ## Nodes -/

/-- A part of a source text with a tree of its own. A clause is one of the three statements in the
header of a loop. -/
inductive Node where
  | function (f : Function)
  | block (b : Block)
  | statement (s : Stmt)
  | clause (s : Stmt)
  | declarator (d : Declarator)
  | mark (a : Attribute)
  | expression (x : Expr)

/-- The expressions directly below an expression, in the order of the source. -/
def Expr.children : Expr → List Expr
  | var _ _ | literal _ _ => []
  | unaryBefore _ _ x | unaryBehind _ _ x | parentheses _ x => [x]
  | binary _ _ l r => [l, r]
  | subscript _ a i => [a, i]
  | call _ _ args => args

namespace Stmt

/-- The attributes in front of a statement. -/
def attributesAhead (s : Stmt) : List Attribute := s.attributes.filter fun a => ¬ s.head.HasInside a

/-- The attributes in the header of a loop. -/
def attributesInside (s : Stmt) : List Attribute := s.attributes.filter fun a => s.head.HasInside a

/-- A statement behind the attributes in front of it. -/
def withAttributes (s : Stmt) : List Node := s.attributesAhead.map .mark ++ [.statement s]

/-- The nodes directly below a statement, in the order of the source. -/
def parts : Stmt → List Node
  | declaration _ ds => ds.map .declarator
  | expression _ x => [.expression x]
  | forLoop h i c u b =>
    [.clause i, .clause c, .clause u] ++
      ((forLoop h i c u b).attributesInside.map .mark ++ b.withAttributes)
  | block _ body => body.flatMap withAttributes
  | ifThen _ c t => .expression c :: t.withAttributes
  | ifElse _ c t e => .expression c :: (t.withAttributes ++ e.withAttributes)
  | whileLoop _ c b => .expression c :: b.withAttributes
  | returns _ v => v.toList.map .expression
  | empty _ => []

end Stmt

namespace Node

def span : Node → Span
  | function f => f.span
  | block b => b.span
  | statement s | clause s => s.span
  | declarator d => d.span
  | mark a => a.span
  | expression x => x.span

/-- The nodes directly below a node, in the order of the source. The attributes in front of a
statement stand in front of it, not below it. -/
def parts : Node → List Node
  | function f => [.block f.body]
  | block b => b.statements.flatMap Stmt.withAttributes
  | statement s | clause s => s.parts
  | declarator d => d.value.toList.map .expression
  | mark a => a.args.map .expression
  | expression x => x.children.map .expression

end Node

namespace Program

/-- The functions of a program, each behind its attributes. -/
def parts (p : Program) : List Node :=
  p.functions.flatMap fun f => f.attributes.map .mark ++ [.function f]

/-- The nodes of a program. -/
inductive HasNode (p : Program) : Node → Prop
  | top {n : Node} (h : n ∈ p.parts) : HasNode p n
  | inner {m n : Node} (hm : HasNode p m) (h : n ∈ m.parts) : HasNode p n

end Program

/-! ## The tokens of a node -/

namespace Grammar

/-- An attribute with its span. -/
def MarkAt (ts : List Token) (a : Attribute) : Prop := DerivesAttribute ts a ∧ a.span.Bounds ts

/-- A declarator with its span. -/
def DeclaratorAt (ts : List Token) (d : Declarator) : Prop :=
  DerivesDeclarator ts d ∧ d.span.Bounds ts

/-- A declaration, each declarator with its span. The stars in front of the first name stand with
the type. -/
inductive DeclarationAt : List Token → List Declarator → Prop
  | list {ts us : List Token} {t : Token} {type : VarType} {ds : List (List Token × Declarator)}
      (hts : DerivesType ts type) (hus : Commas (ds.map Prod.fst) us)
      (hfirst : ∀ n ∈ us.head?, n.kind = .identifier) (hds : ∀ d ∈ ds, DeclaratorAt d.1 d.2)
      (ht : t.kind = .symbol .semicolon) : DeclarationAt (ts ++ (us ++ [t])) (ds.map Prod.snd)

/-- A clause in front of that token. One that is left out has the span of the token. -/
inductive ClauseAt : List Token → Token → Stmt → Prop
  | omitted (t : Token) : ClauseAt [] t (.empty ⟨t.span, []⟩)
  | expression {ts : List Token} {x : Expr} {s : Span} (t : Token) (h : Derives 1 ts x)
      (hs : s.Bounds ts) : ClauseAt ts t (.expression ⟨s, []⟩ x)

/-- A first clause with its semicolon. -/
inductive InitAt : List Token → Stmt → Prop
  | clause {ts : List Token} {t : Token} {s : Stmt} (h : ClauseAt ts t s)
      (ht : t.kind = .symbol .semicolon) : InitAt (ts ++ [t]) s
  | declaration {ts : List Token} {ds : List Declarator} {s : Span} (h : DeclarationAt ts ds)
      (hs : s.Bounds ts) : InitAt ts (.declaration ⟨s, []⟩ ds)

/-- The attributes in a header, each with its span. -/
inductive MarksAt : List Token → List Attribute → Prop
  | none : MarksAt [] []
  | behind {t : Token} {ts : List Token} {marks : List Attribute} (ht : t.kind = .symbol .semicolon)
      (h : Rows MarkAt ts marks) : MarksAt (t :: ts) marks

/-- A header without the parenthesis that opens it. Its clauses have the spans of their tokens, or
that of the token behind them. -/
inductive HeaderAt : List Token → Stmt → Stmt → Stmt → List Attribute → Prop
  | clauses {ts us vs ws : List Token} {t u v : Token} {init check update : Stmt}
      {marks : List Attribute} (hinit : InitAt ts init) (hcheck : ClauseAt us t check)
      (ht : t.kind = .symbol .semicolon) (hupdate : ClauseAt vs v update) (hmarks : MarksAt ws marks)
      (hu : u.kind = .symbol .rightParen) (hv : v ∈ (ws ++ [u]).head?) :
      HeaderAt (ts ++ (us ++ t :: (vs ++ (ws ++ [u])))) init check update marks

/-- A statement with its span, behind the attributes in front of it with theirs. -/
def StmtAt (ts : List Token) (s : Stmt) : Prop :=
  ∃ us vs, ts = us ++ vs ∧ Rows MarkAt us s.attributesAhead ∧
    DerivesRest DerivesStmt vs s.attributesAhead s ∧ s.span.Bounds vs

/-- A function with its span, behind its attributes with theirs. -/
def FunctionAt (ts : List Token) (f : Function) : Prop :=
  ∃ us vs, ts = us ++ vs ∧ Rows MarkAt us f.attributes ∧ DerivesFunction ts f ∧ f.span.Bounds vs

/-- The tokens of a statement with a header, or with declarators. -/
def DetailsAt (ts : List Token) : Stmt → Prop
  | .forLoop h i c u b => ∃ t o us vs, ts = t :: o :: (us ++ vs) ∧
      HeaderAt us i c u (Stmt.forLoop h i c u b).attributesInside ∧ StmtAt vs b
  | .declaration _ ds => DeclarationAt ts ds
  | _ => True

end Grammar

open Grammar

namespace Node

/-- The tokens are those of the node, and parts of these are those of its parts, which have their
spans. The attributes in front of a function or a statement are left out. A clause that is left out
has the token behind it. -/
def WrittenAs : Node → List Token → Prop
  | function f, ts => ∃ us, Rows MarkAt us f.attributes ∧ DerivesFunction (us ++ ts) f
  | block b, ts => DerivesBlock StmtAt ts b.statements
  | statement s, ts => DerivesRest StmtAt ts s.attributesAhead s ∧ DetailsAt ts s
  | clause (.expression _ x), ts => Derives 1 ts x
  | clause (.declaration _ ds), ts => DeclarationAt ts ds
  | clause s, ts => s.isEmpty = true ∧
    ∃ t, ts = [t] ∧ (t.kind = .symbol .rightParen ∨ t.kind = .symbol .semicolon)
  | declarator d, ts => DerivesDeclarator ts d
  | mark a, ts => DerivesAttribute ts a
  | expression x, ts => Derives 1 ts x ∧ IntegersFit ts

/-- Nodes with tokens of their own among these, one behind the other. -/
inductive Embedded (S : List Token → Node → Prop) : List Token → List Node → Prop
  | nil (ts : List Token) : Embedded S ts []
  | cons {us vs ws : List Token} {n : Node} {ns : List Node} (h : S vs n)
      (hs : Embedded S ws ns) : Embedded S (us ++ (vs ++ ws)) (n :: ns)

/-- The node has the span of its tokens, and so have the nodes below it. -/
inductive Laid : List Token → Node → Prop
  | intro {ts : List Token} {n : Node} (hwritten : n.WrittenAs ts) (hspan : n.span.Bounds ts)
      (hparts : Embedded Laid ts n.parts) : Laid ts n

variable {S : List Token → Node → Prop} {ts us vs : List Token} {n m : Node} {ns ms : List Node}

namespace Embedded

/-- Tokens in front do not matter. -/
theorem behind (us : List Token) (h : Embedded S ts ns) : Embedded S (us ++ ts) ns := by
  cases h with
  | nil => exact .nil _
  | @cons vs ws xs n ns h hs =>
    rw [← List.append_assoc]
    exact .cons h hs

theorem append (h : Embedded S ts ns) (h' : Embedded S us ms) :
    Embedded S (ts ++ us) (ns ++ ms) := by
  induction h with
  | nil ts => exact h'.behind ts
  | cons h _ ih =>
    rw [List.append_assoc, List.append_assoc]
    exact .cons h ih

theorem single (h : S ts n) : Embedded S ts [n] := by
  have hcons : Embedded S ([] ++ (ts ++ [])) [n] := .cons h (.nil [])
  rwa [List.append_nil] at hcons

/-- Tokens behind do not matter. -/
theorem before (us : List Token) (h : Embedded S ts ns) : Embedded S (ts ++ us) ns := by
  have happend := h.append (.nil us)
  rwa [List.append_nil] at happend

/-- The nodes of a row of items. -/
theorem of_rows {α : Type} {R : List Token → α → Prop} {as : List α} {f : α → List Node}
    (h : Rows R ts as) (himp : ∀ us a, R us a → us.Sublist ts → Embedded S us (f a)) :
    Embedded S ts (as.flatMap f) := by
  have hwithin {vs : List Token} {as : List α}
      (hrows : Rows (fun us a => R us a ∧ us.Sublist ts) vs as) :
      Embedded S vs (as.flatMap f) := by
    induction hrows with
    | nil => exact .nil []
    | cons ha _ ih => exact (himp _ _ ha.1 ha.2).append ih
  exact hwithin h.within

/-- The nodes of items with commas between them. -/
theorem of_commas {α : Type} {items : List (List Token × α)} {f : α → Node}
    (h : Commas (items.map Prod.fst) ts) (hitems : ∀ i ∈ items, S i.1 (f i.2)) :
    Embedded S ts ((items.map Prod.snd).map f) := by
  induction items generalizing ts with
  | nil =>
    cases h
    exact .nil []
  | cons i items ih =>
    obtain ⟨hi, hitems⟩ := List.forall_mem_cons.mp hitems
    cases items with
    | nil =>
      cases h
      exact .single hi
    | cons j items =>
      cases h with
      | cons _ h => exact (single hi).append ((ih h hitems).behind [_])

/-- Each node has tokens among these. -/
theorem exists_of_mem (h : Embedded S ts ns) (hn : n ∈ ns) : ∃ us, us <:+: ts ∧ S us n := by
  induction h with
  | nil => cases hn
  | @cons us vs ws m ns h _ ih =>
    rcases List.mem_cons.mp hn with rfl | hn
    · exact ⟨vs, ⟨us, ws, List.append_assoc _ _ _⟩, h⟩
    · obtain ⟨xs, hxs, hn⟩ := ih hn
      exact ⟨xs, hxs.trans ((List.suffix_append _ _).trans (List.suffix_append _ _)).isInfix, hn⟩

end Embedded

/-! ## Exact nodes -/

/-- The span of `m` lies in front of that of `n`. -/
def Before (m n : Node) : Prop := m.span.stop.offset ≤ n.span.start.offset

/-- The span of `m` lies in that of `n`. -/
def Inside (m n : Node) : Prop :=
  n.span.start.offset ≤ m.span.start.offset ∧ m.span.stop.offset ≤ n.span.stop.offset

/-- The node is written with tokens of the source and has their span. The nodes directly below it
lie in it, one behind the other. -/
structure Exact (items : List Item) (n : Node) : Prop where
  written : ∃ ts : List Token, ts.map .token <:+: items ∧ n.WrittenAs ts ∧ n.span.Bounds ts
  inside : ∀ m ∈ n.parts, m.Inside n
  apart : n.parts.Pairwise Before

/-- Nodes that are laid in a row stand one behind the other. -/
theorem Embedded.before_of_laid (h : Embedded Laid ts ns) (ho : InOrder ts) :
    ns.Pairwise Before := by
  induction h with
  | nil => exact .nil
  | @cons us vs ws m ns h hs ih =>
    have ho := ho.right
    refine .cons (fun n hn => ?_) (ih ho.right)
    obtain ⟨xs, hxs, hn⟩ := hs.exists_of_mem hn
    obtain ⟨-, hspan, -⟩ := h
    obtain ⟨-, hspan', -⟩ := hn
    exact hspan.before hspan' (ho.sublist (hxs.sublist.append_left vs))

/-- What is laid in a source is exact. -/
theorem Laid.exact {items : List Item} (h : Laid ts n) (ho : InOrder ts)
    (hts : ts.map .token <:+: items) : n.Exact items := by
  obtain ⟨hwritten, hspan, hparts⟩ := h
  refine ⟨⟨ts, hts, hwritten, hspan⟩, fun m hm => ?_, hparts.before_of_laid ho⟩
  obtain ⟨us, hus, -, hspan', -⟩ := hparts.exists_of_mem hm
  exact hspan'.inside hspan ho hus.subset

end Node

/-- Where the nodes at the top are laid, all nodes are. -/
theorem Program.HasNode.laid {p : Program} {ts : List Token} {n : Node}
    (hp : Node.Embedded Node.Laid ts p.parts) (h : p.HasNode n) :
    ∃ us, us <:+: ts ∧ Node.Laid us n := by
  induction h with
  | top h => exact hp.exists_of_mem h
  | inner _ h ih =>
    obtain ⟨us, hus, -, -, hparts⟩ := ih
    obtain ⟨vs, hvs, hn⟩ := hparts.exists_of_mem h
    exact ⟨vs, hvs.trans hus, hn⟩

end LoopNest
