import LoopNest.Proofs.Grammar.Nodes
import LoopNest.Proofs.Stmt.Occurrence

/-!
# Statements and expressions in preorder

The parts of a statement are numbered in the order of the source, and so are those of an expression.
A node is told by the path to it: the numbers of the parts that are taken, one after the other. Paths
in their order lead to each node in front of what is below it, and from left to right.

* `LeadsTo`: what stands at the end of a path.
* `InPreorder`: a row of all that paths lead to, in the order of the paths.
* `Stmt.PartAt`, `Expr.PartAt`: the parts, one rule for each of them.
* `Stmt.statements_inPreorder`, `Expr.nodes_inPreorder`: the statements in a statement and the nodes
  of an expression are such rows.
-/

namespace LoopNest

/-! ## Paths -/

section

variable {α : Type} {Part : α → Nat → α → Prop} {a b c : α} {k : Nat} {path : List Nat}

/-- The path leads from the first node to the second one, by the parts with its numbers. -/
inductive LeadsTo (Part : α → Nat → α → Prop) : α → List Nat → α → Prop
  | here (a : α) : LeadsTo Part a [] a
  | step {a b c : α} {k : Nat} {path : List Nat} (hk : Part a k b) (h : LeadsTo Part b path c) :
      LeadsTo Part a (k :: path) c

/-- The row is what the paths from a node lead to, all of them in their order. -/
def InPreorder (Part : α → Nat → α → Prop) (a : α) (row : List α) : Prop :=
  ∃ paths : List (List Nat × α), paths.map Prod.snd = row ∧
    paths.Pairwise (fun m n => m.1 < n.1) ∧ ∀ path b, (path, b) ∈ paths ↔ LeadsTo Part a path b

theorem leadsTo_nil : LeadsTo Part a [] b ↔ b = a := by
  constructor
  · rintro ⟨⟩
    rfl
  · rintro rfl
    exact .here b

theorem leadsTo_cons : LeadsTo Part a (k :: path) c ↔ ∃ b, Part a k b ∧ LeadsTo Part b path c := by
  constructor
  · rintro (_ | ⟨hk, h⟩)
    exact ⟨_, hk, h⟩
  · rintro ⟨b, hk, h⟩
    exact .step hk h

/-- Nodes side by side, the first of which has the number `n`, with the paths that go through
them. -/
theorem exists_paths {row : α → List α} {bs : List α} (h : ∀ b ∈ bs, InPreorder Part b (row b))
    (n : Nat) :
    ∃ paths : List (List Nat × α), paths.map Prod.snd = bs.flatMap row ∧
      paths.Pairwise (fun m n => m.1 < n.1) ∧
      ∀ path c, (path, c) ∈ paths ↔
        ∃ k b rest, bs[k]? = some b ∧ path = (n + k) :: rest ∧ LeadsTo Part b rest c := by
  induction bs generalizing n with
  | nil => exact ⟨[], rfl, .nil, by simp⟩
  | cons b bs ih =>
    obtain ⟨hb, hbs⟩ := List.forall_mem_cons.mp h
    obtain ⟨first, hrow, hsorted, hfirst⟩ := hb
    obtain ⟨others, hrow', hsorted', hothers⟩ := ih hbs (n + 1)
    refine ⟨first.map (fun m => (n :: m.1, m.2)) ++ others, ?_, ?_, fun path c => ?_⟩
    · rw [List.map_append, List.map_map, List.flatMap_cons, hrow', ← hrow]
      rfl
    · refine List.pairwise_append.mpr ⟨?_, hsorted', fun m hm m' hm' => ?_⟩
      · exact List.pairwise_map.mpr (hsorted.imp fun hlt => List.cons_lt_cons_iff.mpr (.inr ⟨rfl, hlt⟩))
      · obtain ⟨m, _, rfl⟩ := List.mem_map.mp hm
        obtain ⟨path', c'⟩ := m'
        obtain ⟨k, _, rest, _, rfl, _⟩ := (hothers path' c').mp hm'
        exact List.cons_lt_cons_iff.mpr (.inl (by omega))
    · rw [List.mem_append, hothers]
      constructor
      · rintro (hm | ⟨k, b', rest, hk, rfl, hrest⟩)
        · obtain ⟨⟨rest, c⟩, hrest, rfl, rfl⟩ := List.mem_map.mp hm
          exact ⟨0, b, rest, rfl, rfl, (hfirst rest c).mp hrest⟩
        · exact ⟨k + 1, b', rest, hk, by rw [Nat.add_assoc, Nat.add_comm 1], hrest⟩
      · rintro ⟨k, b', rest, hk, rfl, hrest⟩
        cases k with
        | zero =>
          obtain rfl : b = b' := Option.some.inj hk
          exact .inl (List.mem_map.mpr ⟨(rest, c), (hfirst rest c).mpr hrest, rfl⟩)
        | succ k => exact .inr ⟨k, b', rest, hk, by rw [Nat.add_assoc, Nat.add_comm 1], hrest⟩

/-- A node and the rows of its parts, one behind the other, are the row of the node. -/
theorem InPreorder.node {row : α → List α} {parts : List α}
    (hparts : ∀ k b, Part a k b ↔ parts[k]? = some b)
    (h : ∀ b ∈ parts, InPreorder Part b (row b)) :
    InPreorder Part a (a :: parts.flatMap row) := by
  obtain ⟨paths, hrow, hsorted, hpaths⟩ := exists_paths h 0
  refine ⟨([], a) :: paths, congrArg (a :: ·) hrow, .cons (fun m hm => ?_) hsorted,
    fun path c => ?_⟩
  · obtain ⟨path, c⟩ := m
    obtain ⟨k, _, rest, _, rfl, _⟩ := (hpaths path c).mp hm
    exact List.nil_lt_cons _ _
  · rw [List.mem_cons, Prod.mk.injEq, hpaths]
    cases path with
    | nil => simp [leadsTo_nil]
    | cons k path =>
      rw [leadsTo_cons]
      constructor
      · rintro (⟨hnil, _⟩ | ⟨j, b, rest, hj, hpath, hrest⟩)
        · cases hnil
        · rw [Nat.zero_add] at hpath
          obtain ⟨rfl, rfl⟩ := List.cons.inj hpath
          exact ⟨b, (hparts k b).mpr hj, hrest⟩
      · rintro ⟨b, hk, hrest⟩
        exact .inr ⟨k, b, path, (hparts k b).mp hk, by rw [Nat.zero_add], hrest⟩

end

/-! ## Statements -/

namespace Stmt

/-- The second statement is the part of the first one with that number. The clauses of a header stand
in front of the body. -/
inductive PartAt : Stmt → Nat → Stmt → Prop
  | init (h : StmtHead) (i c u b : Stmt) : PartAt (forLoop h i c u b) 0 i
  | check (h : StmtHead) (i c u b : Stmt) : PartAt (forLoop h i c u b) 1 c
  | update (h : StmtHead) (i c u b : Stmt) : PartAt (forLoop h i c u b) 2 u
  | body (h : StmtHead) (i c u b : Stmt) : PartAt (forLoop h i c u b) 3 b
  | item (h : StmtHead) {body : List Stmt} {k : Nat} {s : Stmt} (hk : body[k]? = some s) :
      PartAt (block h body) k s
  | thenOnly (h : StmtHead) (c : Expr) (t : Stmt) : PartAt (ifThen h c t) 0 t
  | thenBranch (h : StmtHead) (c : Expr) (t e : Stmt) : PartAt (ifElse h c t e) 0 t
  | elseBranch (h : StmtHead) (c : Expr) (t e : Stmt) : PartAt (ifElse h c t e) 1 e
  | repeated (h : StmtHead) (c : Expr) (b : Stmt) : PartAt (whileLoop h c b) 0 b

theorem partAt_iff (s : Stmt) (k : Nat) (t : Stmt) : s.PartAt k t ↔ s.children[k]? = some t := by
  constructor
  · intro h
    cases h with
    | item _ hk => exact hk
    | _ => rfl
  · intro h
    cases s with
    | forLoop head i c u b =>
      match k, h with
      | 0, h => exact Option.some.inj h ▸ .init head i c u b
      | 1, h => exact Option.some.inj h ▸ .check head i c u b
      | 2, h => exact Option.some.inj h ▸ .update head i c u b
      | 3, h => exact Option.some.inj h ▸ .body head i c u b
    | block head body => exact .item head h
    | ifThen head c t =>
      match k, h with
      | 0, h => exact Option.some.inj h ▸ .thenOnly head c t
    | ifElse head c t e =>
      match k, h with
      | 0, h => exact Option.some.inj h ▸ .thenBranch head c t e
      | 1, h => exact Option.some.inj h ▸ .elseBranch head c t e
    | whileLoop head c b =>
      match k, h with
      | 0, h => exact Option.some.inj h ▸ .repeated head c b
    | declaration _ _ | expression _ _ | returns _ _ | empty _ => cases h

/-- The statements in a statement are in preorder, each of them once. -/
theorem statements_inPreorder (s : Stmt) : InPreorder PartAt s s.statements := by
  induction s using children_induction with
  | step s ih =>
    rw [statements_eq]
    exact .node s.partAt_iff ih

end Stmt

/-! ## Expressions -/

namespace Expr

/-- The second expression is the part of the first one with that number. -/
inductive PartAt : Expr → Nat → Expr → Prop
  | behindOperator (s : Span) (op : UnaryOp) (x : Expr) : PartAt (unaryBefore s op x) 0 x
  | beforeOperator (s : Span) (op : UnaryOp) (x : Expr) : PartAt (unaryBehind s op x) 0 x
  | left (s : Span) (op : BinaryOp) (l r : Expr) : PartAt (binary s op l r) 0 l
  | right (s : Span) (op : BinaryOp) (l r : Expr) : PartAt (binary s op l r) 1 r
  | inner (s : Span) (x : Expr) : PartAt (parentheses s x) 0 x
  | array (s : Span) (a i : Expr) : PartAt (subscript s a i) 0 a
  | index (s : Span) (a i : Expr) : PartAt (subscript s a i) 1 i
  | argument (s : Span) (f : String) {args : List Expr} {k : Nat} {x : Expr}
      (hk : args[k]? = some x) : PartAt (call s f args) k x

theorem partAt_iff (x : Expr) (k : Nat) (y : Expr) : x.PartAt k y ↔ x.children[k]? = some y := by
  constructor
  · intro h
    cases h with
    | argument _ _ hk => exact hk
    | _ => rfl
  · intro h
    cases x with
    | unaryBefore s op x =>
      match k, h with
      | 0, h => exact Option.some.inj h ▸ .behindOperator s op x
    | unaryBehind s op x =>
      match k, h with
      | 0, h => exact Option.some.inj h ▸ .beforeOperator s op x
    | binary s op l r =>
      match k, h with
      | 0, h => exact Option.some.inj h ▸ .left s op l r
      | 1, h => exact Option.some.inj h ▸ .right s op l r
    | parentheses s x =>
      match k, h with
      | 0, h => exact Option.some.inj h ▸ .inner s x
    | subscript s a i =>
      match k, h with
      | 0, h => exact Option.some.inj h ▸ .array s a i
      | 1, h => exact Option.some.inj h ▸ .index s a i
    | call s f args => exact .argument s f h
    | var _ _ | literal _ _ => cases h

theorem sizeOf_lt_of_mem_children {x y : Expr} (h : y ∈ x.children) : sizeOf y < sizeOf x := by
  cases x with
  | call s f args =>
    have hlt : sizeOf y < sizeOf args := List.sizeOf_lt_of_mem h
    simp only [call.sizeOf_spec]
    omega
  | binary s op l r =>
    simp only [children, List.mem_cons, List.not_mem_nil, or_false] at h
    simp only [binary.sizeOf_spec]
    rcases h with rfl | rfl <;> omega
  | subscript s a i =>
    simp only [children, List.mem_cons, List.not_mem_nil, or_false] at h
    simp only [subscript.sizeOf_spec]
    rcases h with rfl | rfl <;> omega
  | unaryBefore s op x =>
    obtain rfl := List.mem_singleton.mp h
    simp only [unaryBefore.sizeOf_spec]
    omega
  | unaryBehind s op x =>
    obtain rfl := List.mem_singleton.mp h
    simp only [unaryBehind.sizeOf_spec]
    omega
  | parentheses s x =>
    obtain rfl := List.mem_singleton.mp h
    simp only [parentheses.sizeOf_spec]
    omega
  | var _ _ | literal _ _ => cases h

theorem children_induction {P : Expr → Prop} (step : ∀ x, (∀ y ∈ x.children, P y) → P x)
    (x : Expr) : P x :=
  step x fun y _ => children_induction step y
termination_by sizeOf x
decreasing_by exact sizeOf_lt_of_mem_children ‹_›

theorem nodes_eq (x : Expr) : x.nodes = x :: x.children.flatMap nodes := by
  cases x <;> simp [nodes, children, nodesAll_eq]

theorem self_mem_nodes (x : Expr) : x ∈ x.nodes := by
  rw [nodes_eq]
  exact List.mem_cons_self

/-- The nodes of an expression are in preorder, each of them once. -/
theorem nodes_inPreorder (x : Expr) : InPreorder PartAt x x.nodes := by
  induction x using children_induction with
  | step x ih =>
    rw [nodes_eq]
    exact .node x.partAt_iff ih

end Expr

end LoopNest
