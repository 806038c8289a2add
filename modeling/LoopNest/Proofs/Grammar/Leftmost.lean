import LoopNest.Proofs.Grammar.Laid
import LoopNest.Proofs.Grammar.Provenance
import LoopNest.Proofs.Stmt.Preorder

/-!
# Where an expression starts

An expression may start with an operand: with that of an operator behind it or between two operands,
or with the array of a subscript. From operand to operand this leads down to the node at which it
starts. The nodes on the way start at the same place, and all others behind it.

* `Expr.firstOperand?`, `Expr.spine`: the operand at the start, and the nodes on the way down.
* `Expr.StartsLeft`: nodes on the way start where the expression does, all others behind that.
* `Grammar.leftAt_rules`: every expression that is put together has nodes that start so.
* `Expr.startNode_leftmost`: the node at which an expression of a source starts is the leftmost one.
-/

namespace LoopNest

open Token

namespace Expr

variable {x y : Expr}

/-! ## The way to the start -/

/-- The operand that an expression starts with: that of an operator behind it, the left one of two,
or the array of a subscript. -/
def firstOperand? : Expr → Option Expr
  | unaryBehind _ _ x => some x
  | binary _ _ l _ => some l
  | subscript _ a _ => some a
  | _ => none

/-- The nodes from the expression down to the one at which it starts. -/
def spine : Expr → List Expr
  | unaryBehind s op x => unaryBehind s op x :: x.spine
  | binary s op l r => binary s op l r :: l.spine
  | subscript s a i => subscript s a i :: a.spine
  | x => [x]

/-- The nodes that are not on that way. -/
def besideSpine : Expr → List Expr
  | unaryBehind _ _ x => x.besideSpine
  | binary _ _ l r => l.besideSpine ++ r.nodes
  | subscript _ a i => a.besideSpine ++ i.nodes
  | x => x.children.flatMap nodes

/-- What holds of an expression without a first operand, and of one with such an operand if it does
so of that, holds of every expression. -/
theorem firstOperand_induction {P : Expr → Prop} (stop : ∀ x, x.firstOperand? = none → P x)
    (step : ∀ x y, x.firstOperand? = some y → P y → P x) : ∀ x, P x
  | unaryBehind _ _ x => step _ x rfl (firstOperand_induction stop step x)
  | binary _ _ l _ => step _ l rfl (firstOperand_induction stop step l)
  | subscript _ a _ => step _ a rfl (firstOperand_induction stop step a)
  | var _ _ | literal _ _ | unaryBefore _ _ _ | parentheses _ _ | call _ _ _ => stop _ rfl

theorem startNode_of_none (h : x.firstOperand? = none) : x.startNode = x := by
  cases x <;> first | rfl | cases h

theorem startNode_of_some (h : x.firstOperand? = some y) : x.startNode = y.startNode := by
  cases x <;> cases h <;> rfl

theorem spine_of_none (h : x.firstOperand? = none) : x.spine = [x] := by
  cases x <;> first | rfl | cases h

theorem spine_of_some (h : x.firstOperand? = some y) : x.spine = x :: y.spine := by
  cases x <;> cases h <;> rfl

theorem besideSpine_of_none (h : x.firstOperand? = none) :
    x.besideSpine = x.children.flatMap nodes := by
  cases x <;> first | rfl | cases h

theorem children_of_some (h : x.firstOperand? = some y) : x.children = y :: x.children.tail := by
  cases x <;> cases h <;> rfl

theorem besideSpine_of_some (h : x.firstOperand? = some y) :
    x.besideSpine = y.besideSpine ++ x.children.tail.flatMap nodes := by
  cases x <;> cases h <;> simp [besideSpine, children]

/-- The nodes on the way to the start come first, and then the others. -/
theorem nodes_eq_spine (x : Expr) : x.nodes = x.spine ++ x.besideSpine := by
  induction x using firstOperand_induction with
  | stop x h => rw [nodes_eq, spine_of_none h, besideSpine_of_none h, List.singleton_append]
  | step x y h ih =>
    rw [nodes_eq, children_of_some h, List.flatMap_cons, ih, spine_of_some h,
      besideSpine_of_some h, List.cons_append, List.append_assoc]

theorem head?_spine (x : Expr) : x.spine.head? = some x := by
  cases h : x.firstOperand? with
  | none => rw [spine_of_none h, List.head?_cons]
  | some y => rw [spine_of_some h, List.head?_cons]

theorem getLast?_spine (x : Expr) : x.spine.getLast? = some x.startNode := by
  induction x using firstOperand_induction with
  | stop x h => rw [spine_of_none h, startNode_of_none h, List.getLast?_singleton]
  | step x y h ih =>
    rw [spine_of_some h, startNode_of_some h, ← ih]
    exact List.getLast?_cons_of_ne_nil fun hnil => by simpa [hnil] using head?_spine y

/-- Each node on the way starts with the one below it. -/
theorem isChain_spine (x : Expr) : x.spine.IsChain fun y z => y.firstOperand? = some z := by
  induction x using firstOperand_induction with
  | stop x h =>
    rw [spine_of_none h]
    exact .singleton x
  | step x y h ih =>
    obtain ⟨rest, hrest⟩ := List.head?_eq_some_iff.mp (head?_spine y)
    rw [hrest] at ih
    rw [spine_of_some h, hrest]
    exact .cons_cons h ih

theorem startNode_mem_spine (x : Expr) : x.startNode ∈ x.spine :=
  List.mem_of_mem_getLast? (getLast?_spine x)

theorem firstOperand?_startNode (x : Expr) : x.startNode.firstOperand? = none := by
  induction x using firstOperand_induction with
  | stop x h => rwa [startNode_of_none h]
  | step x y h ih => rwa [startNode_of_some h]

/-- The nodes on the way to the start start where the expression does, and all others behind that. -/
structure StartsLeft (x : Expr) : Prop where
  spine : ∀ y ∈ x.spine, y.span.start = x.span.start
  beside : ∀ y ∈ x.besideSpine, x.span.start.offset < y.span.start.offset

end Expr

open Grammar LoopNest.Expr

/-- The nodes of an expression that is laid start at some of its tokens. -/
theorem Node.Laid.starts {ts : List Token} {x : Expr} (h : Node.Laid ts (.expression x)) :
    ∀ y ∈ x.nodes, ∃ t ∈ ts, y.span.start = t.span.start := by
  induction x using children_induction generalizing ts with
  | step x ih =>
    rw [nodes_eq]
    refine List.forall_mem_cons.mpr ⟨?_, fun y hy => ?_⟩
    · obtain ⟨t, ht, hstart⟩ := h.span.first
      exact ⟨t, List.mem_of_mem_head? ht, hstart⟩
    · obtain ⟨c, hc, hy⟩ := List.mem_flatMap.mp hy
      obtain ⟨us, hus, hlaid⟩ := h.parts.exists_of_mem (List.mem_map_of_mem hc)
      obtain ⟨t, ht, hstart⟩ := ih c hc hlaid y hy
      exact ⟨t, hus.subset ht, hstart⟩

namespace Grammar

/-! ## Expressions that are put together -/

variable {level k : Nat} {ts us : List Token} {t : Token} {x y : Expr}

/-- The tokens are an expression that is laid, and its nodes start where they should, if the tokens
are in order. -/
structure LeftAt (level : Nat) (ts : List Token) (x : Expr) : Prop extends LaidAt level ts x where
  starts (ho : InOrder ts) : ∀ y ∈ x.nodes, y.StartsLeft

/-- Each expression is written with some of the tokens. -/
def Below (us : List Token) (xs : List Expr) : Prop :=
  ∀ x ∈ xs, ∃ level vs, vs.Sublist us ∧ LeftAt level vs x

theorem LeftAt.below (h : LeftAt level ts x) (hsub : ts.Sublist us) : Below us [x] :=
  List.forall_mem_singleton.mpr ⟨level, ts, hsub, h⟩

namespace Below

variable {xs : List Expr}

theorem starts (h : Below us xs) (ho : InOrder us) : ∀ y ∈ xs.flatMap nodes, y.StartsLeft := by
  intro y hy
  obtain ⟨x, hx, hy⟩ := List.mem_flatMap.mp hy
  obtain ⟨_, vs, hsub, hx⟩ := h x hx
  exact hx.starts (ho.sublist hsub) y hy

/-- Nodes that are written behind the first token start behind it. -/
theorem behind (h : Below us xs) (ho : InOrder (t :: us)) :
    ∀ y ∈ xs.flatMap nodes, t.span.start.offset < y.span.start.offset := by
  intro y hy
  obtain ⟨x, hx, hy⟩ := List.mem_flatMap.mp hy
  obtain ⟨_, vs, hsub, hx⟩ := h x hx
  obtain ⟨u, hu, hstart⟩ := (hx.laid (ho.tail.sublist hsub)).starts y hy
  rw [hstart]
  exact ho.first_lt (hsub.subset hu)

end Below

theorem LaidAt.start_eq (h : LaidAt level (t :: us) x) (ho : InOrder (t :: us)) :
    x.span.start = t.span.start := by
  obtain ⟨t', ht', hstart⟩ := (h.laid ho).span.first
  obtain rfl : t = t' := Option.some.inj ht'
  exact hstart

/-- An expression that starts with a token of its own. -/
theorem LeftAt.of_token (h : LaidAt level (t :: us) x) (hx : x.firstOperand? = none)
    (hbelow : Below us x.children) : LeftAt level (t :: us) x := by
  refine ⟨h, fun ho => ?_⟩
  rw [nodes_eq]
  refine List.forall_mem_cons.mpr ⟨⟨?_, ?_⟩, hbelow.starts ho.tail⟩
  · rw [spine_of_none hx]
    exact List.forall_mem_singleton.mpr rfl
  · rw [besideSpine_of_none hx, h.start_eq ho]
    exact hbelow.behind ho

/-- An expression that starts with an operand. -/
theorem LeftAt.of_operand (h : LaidAt level (ts ++ us) x) (hx : x.firstOperand? = some y)
    (hy : LeftAt k ts y) (hbelow : Below us x.children.tail) : LeftAt level (ts ++ us) x := by
  refine ⟨h, fun ho => ?_⟩
  obtain ⟨t, vs, rfl⟩ := List.exists_cons_of_ne_nil hy.derives.ne_nil
  have hstart : x.span.start = y.span.start := (h.start_eq ho).trans (hy.start_eq ho.left).symm
  have hleft := hy.starts ho.left y y.self_mem_nodes
  rw [nodes_eq, children_of_some hx, List.flatMap_cons]
  refine List.forall_mem_cons.mpr ⟨⟨?_, ?_⟩, ?_⟩
  · rw [spine_of_some hx, hstart]
    exact List.forall_mem_cons.mpr ⟨hstart, hleft.spine⟩
  · rw [besideSpine_of_some hx]
    refine List.forall_mem_append.mpr ⟨hstart ▸ hleft.beside, ?_⟩
    rw [h.start_eq ho]
    exact hbelow.behind (ho.sublist ((List.sublist_append_right vs us).cons_cons t))
  · exact List.forall_mem_append.mpr ⟨hy.starts ho.left, hbelow.starts ho.right⟩

/-- Whatever the grammar of expressions puts together starts on the left. -/
theorem leftAt_rules : Rules LeftAt where
  tighter h := ⟨laidAt_rules.tighter h.toLaidAt, h.starts⟩
  assignment hop ht hl hr :=
    .of_operand (laidAt_rules.assignment hop ht hl.toLaidAt hr.toLaidAt) rfl hl
      (hr.below (List.sublist_cons_self _ _))
  binary hop ht hl hr :=
    .of_operand (laidAt_rules.binary hop ht hl.toLaidAt hr.toLaidAt) rfl hl
      (hr.below (List.sublist_cons_self _ _))
  before ht h := .of_token (laidAt_rules.before ht h.toLaidAt) rfl (h.below (.refl _))
  behind h hop ht :=
    .of_operand (laidAt_rules.behind h.toLaidAt hop ht) rfl h fun _ hx => absurd hx List.not_mem_nil
  subscript {_ us t u _ _} ha ht hi hu := by
    have hsub : us.Sublist (t :: (us ++ [u])) := (List.sublist_append_left us [u]).cons t
    exact .of_operand (laidAt_rules.subscript ha.toLaidAt ht hi.toLaidAt hu) rfl ha (hi.below hsub)
  name ht := .of_token (laidAt_rules.name ht) rfl fun _ hx => absurd hx List.not_mem_nil
  literal ht hfit :=
    .of_token (laidAt_rules.literal ht hfit) rfl fun _ hx => absurd hx List.not_mem_nil
  parentheses ht h hu :=
    .of_token (laidAt_rules.parentheses ht h.toLaidAt hu) rfl (h.below (List.sublist_append_left _ _))
  call {_ t u args ts} hf ht hts hargs hu := by
    refine .of_token (laidAt_rules.call hf ht hts (fun a ha => (hargs a ha).toLaidAt) hu) rfl ?_
    intro x hx
    obtain ⟨a, ha, rfl⟩ := List.mem_map.mp hx
    have hsub : a.1.Sublist (t :: (ts ++ [u])) :=
      ((hts.sublist (List.mem_map_of_mem ha)).trans (List.sublist_append_left ts [u])).cons t
    exact ⟨1, a.1, hsub, hargs a ha⟩

end Grammar

/-! ## Expressions of a source -/

/-- Tokens of a source that were taken are in order: the end of the file is not one of them. -/
theorem Reader.Took.inOrder {source : String} {r r' : Reader} {ts : List Token}
    (h : r.Took ts r') (hahead : r.remaining.Sublist (scan source)) : InOrder ts := by
  rw [h.remaining] at hahead
  refine Token.inOrder_of_scan ((List.sublist_append_left _ _).trans hahead) fun t ht => ?_
  by_contra hend
  -- the reader stands at an item behind the token, and there is none behind the end of the file
  obtain ⟨us, vs, rfl⟩ := List.append_of_mem ht
  rw [List.map_append, List.append_assoc, List.map_cons, List.cons_append] at hahead
  obtain ⟨front, rear, hscan, hfront, hrear⟩ :=
    List.cons_sublist_iff.mp ((List.sublist_append_right _ _).trans hahead)
  obtain ⟨before, behind, rfl⟩ := List.append_of_mem hfront
  rw [List.append_assoc, List.cons_append] at hscan
  have hnil := scan_nothing_behind_end hscan (Bool.not_eq_false _ ▸ hend)
  rw [(List.append_eq_nil_iff.mp hnil).2, List.sublist_nil] at hrear
  simp [Reader.remaining] at hrear

namespace Expr

variable {source : String} {x : Expr}

/-- The expression is a node of one that is read from the source: of one in a program, or of one that
is read wherever a reader stands that has items of the source ahead. -/
inductive IsNodeIn (source : String) : Expr → Prop
  | ofProgram {p : Program} {x y : Expr} (hp : Program.read source = .ok p) (hx : x ∈ p.expressions)
      (hy : y ∈ x.nodes) : IsNodeIn source y
  | ofReader {r r' : Reader} {x y : Expr} (hclosed : r.Closed) (hscoped : r.Scoped)
      (hahead : r.remaining.Sublist (scan source)) (hrun : Grammar.expression r = (.ok x, r'))
      (hy : y ∈ x.nodes) : IsNodeIn source y

theorem IsNodeIn.startsLeft (h : x.IsNodeIn source) : x.StartsLeft := by
  have hread {r r' : Reader} {y : Expr} (hclosed : r.Closed) (hscoped : r.Scoped)
      (hahead : r.remaining.Sublist (scan source)) (hrun : Grammar.expression r = (.ok y, r'))
      (hx : x ∈ y.nodes) : x.StartsLeft := by
    obtain ⟨-, -, ts, htook, hleft⟩ :=
      Grammar.expression_consumes_of_rules Grammar.leftAt_rules r hclosed hscoped y r' hrun
    exact hleft.starts (htook.inOrder hahead) x hx
  cases h with
  | ofProgram hp hy hx =>
    obtain ⟨r, r', hr, hrun⟩ := Program.expressions_read hp _ hy
    exact hread hr.closed hr.scoped hr.within.sublist hrun hx
  | ofReader hclosed hscoped hahead hrun hx => exact hread hclosed hscoped hahead hrun hx

/-- **The start of an expression is its leftmost node.** Take any node of an expression that is read
from a source. The node at which it starts is one of its nodes and has the same line, column and
offset. It is none with an operator behind it or between two operands and no subscript, so that it
starts at itself. It is the end of a way down through the nodes, each of which starts with the next
one as its operand. All nodes on this way start at the same place, and all other nodes behind it. -/
theorem startNode_leftmost (h : x.IsNodeIn source) :
    x.startNode ∈ x.nodes ∧ x.startNode.span.start = x.span.start ∧
      x.startNode.firstOperand? = none ∧ x.startNode.startNode = x.startNode ∧
      x.spine.head? = some x ∧ x.spine.getLast? = some x.startNode ∧
      x.spine.IsChain (fun y z => y.firstOperand? = some z) ∧
      (∀ y ∈ x.spine, y.span.start = x.span.start) ∧
      ∃ others, x.nodes = x.spine ++ others ∧
        ∀ y ∈ others, x.startNode.span.start.offset < y.span.start.offset := by
  have hleft := h.startsLeft
  have hstart := hleft.spine x.startNode x.startNode_mem_spine
  have hmem : x.startNode ∈ x.nodes := by
    rw [nodes_eq_spine]
    exact List.mem_append_left _ x.startNode_mem_spine
  refine ⟨hmem, hstart, x.firstOperand?_startNode, startNode_of_none x.firstOperand?_startNode,
    x.head?_spine, x.getLast?_spine, x.isChain_spine, hleft.spine, x.besideSpine, x.nodes_eq_spine, ?_⟩
  rw [hstart]
  exact hleft.beside

/-- An assignment to a sum that starts with an element of an array, which is counted up. -/
theorem startNode_leftmost_counted : ∃ x : Expr,
    x.IsNodeIn "void f(int *a, int i) { (a)[i]++ + i * a[0] = 1; }" ∧
      x.spine.length = 5 ∧ x.besideSpine.length = 8 ∧
      x.startNode ∈ x.nodes ∧ x.startNode.span.start = x.span.start ∧
      x.startNode.firstOperand? = none ∧ x.startNode.startNode = x.startNode ∧
      x.spine.head? = some x ∧ x.spine.getLast? = some x.startNode ∧
      x.spine.IsChain (fun y z => y.firstOperand? = some z) ∧
      (∀ y ∈ x.spine, y.span.start = x.span.start) ∧
      ∃ others, x.nodes = x.spine ++ others ∧
        ∀ y ∈ others, x.startNode.span.start.offset < y.span.start.offset := by
  have hread : Program.anyOfBytes
      "void f(int *a, int i) { (a)[i]++ + i * a[0] = 1; }".toByteArray.data.toList
      (fun p => p.expressions.any fun x =>
        x.spine.length == 5 && x.besideSpine.length == 8) = true := by
    decide +kernel
  obtain ⟨p, hp, hany⟩ := Program.exists_of_read hread
  obtain ⟨x, hx, hlengths⟩ := List.any_eq_true.mp hany
  obtain ⟨hspine, hothers⟩ := Bool.and_eq_true_iff.mp hlengths
  have hnode := IsNodeIn.ofProgram hp hx x.self_mem_nodes
  exact ⟨x, hnode, eq_of_beq hspine, eq_of_beq hothers, startNode_leftmost hnode⟩

end Expr

end LoopNest
