import LoopNest.Proofs.Expr.Bracketed
import Mathlib.Logic.Relation

/-!
# Expressions up to parentheses

Parentheses may be put around any part of an expression, and taken away. An expression without any is
a normal form for this: one expression comes of another in that way, whatever their places and the
names of their variables, exactly if the two look the same without parentheses.

* `Expr.Somewhere`: a change in one place of an expression.
* `Expr.Rebracketed`: parentheses are added and removed, one pair after the other.
* `Expr.tree`: an expression without places and without the names of variables, which stand for
  their numbers. `Expr.sameShape_tree`: nothing else matters to `sameShape`.
* `Expr.exists_rebracketed`: an expression can get the parentheses of another one.
* `Expr.Ordinary`: the literals are equal to themselves and to no other. `Expr.sameShape_iff`:
  `sameShape` is equality of trees for such expressions.
* `Expr.withoutParentheses_normal`: the normal form.
-/

namespace LoopNest

/-! ## Comparing literals -/

/-- The literal is neither something that is no number, which differs from itself, nor the negative
zero, which is equal to another number. -/
def Literal.Ordinary : Literal → Prop
  | float x => x.isNaN = false ∧ ¬ (x.negative = true ∧ x.magnitude = 0)
  | int _ | bool _ => True

instance : DecidablePred Literal.Ordinary
  | .float x =>
    inferInstanceAs (Decidable (x.isNaN = false ∧ ¬ (x.negative = true ∧ x.magnitude = 0)))
  | .int _ | .bool _ => inferInstanceAs (Decidable True)

theorem Literal.sameValue_iff {a b : Literal} (ha : a.Ordinary) (hb : b.Ordinary) :
    a.sameValue b = true ↔ a = b := by
  cases a with
  | int m => cases b <;> simp [sameValue]
  | bool m => cases b <;> simp [sameValue]
  | float x =>
    cases b with
    | int n => simp [sameValue]
    | bool n => simp [sameValue]
    | float y =>
      obtain ⟨sign, magnitude⟩ := x
      obtain ⟨sign', magnitude'⟩ := y
      obtain ⟨hnumber, hzero⟩ := ha
      obtain ⟨hnumber', hzero'⟩ := hb
      simp only [sameValue, Binary64.same, hnumber, hnumber', float.injEq, Binary64.mk.injEq]
      dsimp only at hzero hzero'
      cases sign <;> cases sign' <;> simp_all

namespace Expr

/-! ## Changes in one place -/

/-- The second expression is the first one with something else in place of one of its parts, in a way
that `R` allows. -/
inductive Somewhere (R : Expr → Expr → Prop) : Expr → Expr → Prop
  | here {x y : Expr} (h : R x y) : Somewhere R x y
  | unaryBefore {x y : Expr} (s : Span) (op : UnaryOp) (h : Somewhere R x y) :
      Somewhere R (unaryBefore s op x) (unaryBefore s op y)
  | unaryBehind {x y : Expr} (s : Span) (op : UnaryOp) (h : Somewhere R x y) :
      Somewhere R (unaryBehind s op x) (unaryBehind s op y)
  | left {x y : Expr} (s : Span) (op : BinaryOp) (r : Expr) (h : Somewhere R x y) :
      Somewhere R (binary s op x r) (binary s op y r)
  | right {x y : Expr} (s : Span) (op : BinaryOp) (l : Expr) (h : Somewhere R x y) :
      Somewhere R (binary s op l x) (binary s op l y)
  | parentheses {x y : Expr} (s : Span) (h : Somewhere R x y) :
      Somewhere R (parentheses s x) (parentheses s y)
  | array {x y : Expr} (s : Span) (i : Expr) (h : Somewhere R x y) :
      Somewhere R (subscript s x i) (subscript s y i)
  | index {x y : Expr} (s : Span) (a : Expr) (h : Somewhere R x y) :
      Somewhere R (subscript s a x) (subscript s a y)
  | argument {x y : Expr} (s : Span) (f : String) (before behind : List Expr)
      (h : Somewhere R x y) :
      Somewhere R (call s f (before ++ x :: behind)) (call s f (before ++ y :: behind))

/-- The second expression is the first one in parentheses, wherever these are. -/
def InParentheses (x y : Expr) : Prop := ∃ s, y = parentheses s x

/-- A pair of parentheses is added around some part of the expression. -/
abbrev AddsParentheses : Expr → Expr → Prop := Somewhere InParentheses

/-- Pairs of parentheses are added and removed, one after the other. -/
def Rebracketed : Expr → Expr → Prop :=
  Relation.ReflTransGen fun x y => AddsParentheses x y ∨ AddsParentheses y x

theorem withoutParenthesesAll_eq (xs : List Expr) :
    withoutParenthesesAll xs = xs.map withoutParentheses := by
  induction xs with
  | nil => rfl
  | cons x xs ih => rw [withoutParenthesesAll, ih, List.map_cons]

/-- Where the change is one of parentheses, nothing of it is left without them. -/
theorem Somewhere.withoutParentheses_eq {R : Expr → Expr → Prop}
    (hR : ∀ x y, R x y → y.withoutParentheses = x.withoutParentheses) {x y : Expr}
    (h : Somewhere R x y) : y.withoutParentheses = x.withoutParentheses := by
  induction h with
  | here h => exact hR _ _ h
  | unaryBefore s op _ ih => simp only [withoutParentheses, ih]
  | unaryBehind s op _ ih => simp only [withoutParentheses, ih]
  | left s op r _ ih => simp only [withoutParentheses, ih]
  | right s op l _ ih => simp only [withoutParentheses, ih]
  | parentheses s _ ih => simp only [withoutParentheses, ih]
  | array s i _ ih => simp only [withoutParentheses, ih]
  | index s a _ ih => simp only [withoutParentheses, ih]
  | argument s f before behind _ ih =>
    simp only [withoutParentheses, withoutParenthesesAll_eq, List.map_append, List.map_cons, ih]

theorem withoutParentheses_enclosed (x : Expr) :
    x.enclosed.withoutParentheses = x.withoutParentheses := by
  cases x <;> rfl

theorem Rebracketed.withoutParentheses_eq {x y : Expr} (h : x.Rebracketed y) :
    y.withoutParentheses = x.withoutParentheses := by
  have hadds {x y : Expr} (h : AddsParentheses x y) :
      y.withoutParentheses = x.withoutParentheses := by
    apply h.withoutParentheses_eq
    rintro x _ ⟨s, rfl⟩
    rfl
  induction h with
  | refl => rfl
  | tail _ hstep ih =>
    rcases hstep with h | h
    · exact (hadds h).trans ih
    · exact (hadds h).symm.trans ih

/-! ## Parts of an expression -/

namespace Rebracketed

variable {x x' y y' : Expr} {xs ys : List Expr}

theorem refl (x : Expr) : x.Rebracketed x := Relation.ReflTransGen.refl

theorem trans {z : Expr} (h : x.Rebracketed y) (h' : y.Rebracketed z) : x.Rebracketed z :=
  Relation.ReflTransGen.trans h h'

theorem add (s : Span) (x : Expr) : x.Rebracketed (parentheses s x) :=
  .single (.inl (.here ⟨s, rfl⟩))

theorem remove (s : Span) (x : Expr) : (parentheses s x).Rebracketed x :=
  .single (.inr (.here ⟨s, rfl⟩))

/-- What is done to a part is done to the whole. -/
theorem inside {whole : Expr → Expr}
    (hwhole : ∀ {x y}, AddsParentheses x y → AddsParentheses (whole x) (whole y))
    (h : x.Rebracketed y) : (whole x).Rebracketed (whole y) :=
  h.lift whole fun _ _ hstep => hstep.imp hwhole hwhole

theorem binary (s : Span) (op : BinaryOp) (h : x.Rebracketed x') (h' : y.Rebracketed y') :
    (Expr.binary s op x y).Rebracketed (Expr.binary s op x' y') :=
  (h.inside fun h => .left s op y h).trans (h'.inside fun h => .right s op x' h)

theorem subscript (s : Span) (h : x.Rebracketed x') (h' : y.Rebracketed y') :
    (Expr.subscript s x y).Rebracketed (Expr.subscript s x' y') :=
  (h.inside fun h => .array s y h).trans (h'.inside fun h => .index s x' h)

theorem call (s : Span) (f : String) (h : List.Forall₂ Rebracketed xs ys) :
    (Expr.call s f xs).Rebracketed (Expr.call s f ys) := by
  -- one argument after the other, behind those that are done
  have hbehind (before : List Expr) :
      (Expr.call s f (before ++ xs)).Rebracketed (Expr.call s f (before ++ ys)) := by
    induction h generalizing before with
    | nil => exact refl _
    | @cons x y xs ys hxy _ ih =>
      have hfirst : (Expr.call s f (before ++ x :: xs)).Rebracketed
          (Expr.call s f (before ++ y :: xs)) := hxy.inside fun h => .argument s f before xs h
      have hrest := ih (before ++ [y])
      rw [List.append_assoc, List.append_assoc] at hrest
      exact hfirst.trans hrest
  exact hbehind []

end Rebracketed

mutual

/-- All parentheses can be removed one after the other. -/
theorem rebracketed_withoutParentheses : ∀ x : Expr, x.Rebracketed x.withoutParentheses
  | var _ _ | literal _ _ => .refl _
  | parentheses s x => (Rebracketed.remove s x).trans (rebracketed_withoutParentheses x)
  | unaryBefore s op x =>
    (rebracketed_withoutParentheses x).inside fun h => .unaryBefore s op h
  | unaryBehind s op x =>
    (rebracketed_withoutParentheses x).inside fun h => .unaryBehind s op h
  | binary s op l r =>
    .binary s op (rebracketed_withoutParentheses l) (rebracketed_withoutParentheses r)
  | subscript s a i =>
    .subscript s (rebracketed_withoutParentheses a) (rebracketed_withoutParentheses i)
  | call s f args => .call s f (rebracketed_withoutParenthesesAll args)

theorem rebracketed_withoutParenthesesAll : ∀ xs : List Expr,
    List.Forall₂ Rebracketed xs (withoutParenthesesAll xs)
  | [] => .nil
  | x :: xs => .cons (rebracketed_withoutParentheses x) (rebracketed_withoutParenthesesAll xs)

end

/-! ## Expressions without places and names -/

mutual

/-- The operators, literals and numbers of variables of an expression. -/
def tree : Expr → Expr
  | var _ v => var Span.none ⟨v.id, ""⟩
  | literal _ value => literal Span.none value
  | unaryBefore _ op x => unaryBefore Span.none op x.tree
  | unaryBehind _ op x => unaryBehind Span.none op x.tree
  | binary _ op l r => binary Span.none op l.tree r.tree
  | parentheses _ x => parentheses Span.none x.tree
  | subscript _ a i => subscript Span.none a.tree i.tree
  | call _ f args => call Span.none f (treeAll args)

def treeAll : List Expr → List Expr
  | [] => []
  | x :: xs => x.tree :: treeAll xs

end

mutual

theorem sameShape_tree : ∀ x y : Expr, x.tree.sameShape y.tree = x.sameShape y
  | var _ _, y | literal _ _, y => by cases y <;> rfl
  | unaryBefore _ _ x, y | unaryBehind _ _ x, y | parentheses _ x, y => by
    cases y <;> simp only [tree, sameShape, sameShape_tree x]
  | binary _ _ l r, y => by cases y <;> simp only [tree, sameShape, sameShape_tree l, sameShape_tree r]
  | subscript _ a i, y => by cases y <;> simp only [tree, sameShape, sameShape_tree a, sameShape_tree i]
  | call _ _ args, y => by cases y <;> simp only [tree, sameShape, sameShapes_treeAll args]

theorem sameShapes_treeAll : ∀ xs ys : List Expr, sameShapes (treeAll xs) (treeAll ys) = sameShapes xs ys
  | [], ys => by cases ys <;> rfl
  | x :: xs, ys => by
    cases ys <;> simp only [treeAll, sameShapes, sameShape_tree x, sameShapes_treeAll xs]

end

mutual

theorem tree_withoutParentheses : ∀ x : Expr,
    x.withoutParentheses.tree = x.tree.withoutParentheses
  | var _ _ | literal _ _ => rfl
  | parentheses _ x => tree_withoutParentheses x
  | unaryBefore _ _ x | unaryBehind _ _ x => by
    simp only [tree, withoutParentheses, tree_withoutParentheses x]
  | binary _ _ l r => by
    simp only [tree, withoutParentheses, tree_withoutParentheses l, tree_withoutParentheses r]
  | subscript _ a i => by
    simp only [tree, withoutParentheses, tree_withoutParentheses a, tree_withoutParentheses i]
  | call _ _ args => by simp only [tree, withoutParentheses, treeAll_withoutParenthesesAll args]

theorem treeAll_withoutParenthesesAll : ∀ xs : List Expr,
    treeAll (withoutParenthesesAll xs) = withoutParenthesesAll (treeAll xs)
  | [] => rfl
  | x :: xs => by
    simp only [treeAll, withoutParenthesesAll, tree_withoutParentheses x,
      treeAll_withoutParenthesesAll xs]

end

mutual

/-- An expression that looks like another one without parentheses can get those of the other. -/
theorem exists_rebracketed : ∀ {x : Expr} (y : Expr), x.tree = y.withoutParentheses.tree →
    ∃ z, x.Rebracketed z ∧ z.tree = y.tree
  | x, var _ _, h | x, literal _ _, h => ⟨x, .refl x, h⟩
  | x, parentheses s y, h => by
    obtain ⟨z, hz, htree⟩ := exists_rebracketed y h
    exact ⟨parentheses s z, hz.trans (.add s z), by rw [tree, tree, htree]⟩
  | x, unaryBefore _ op y, h => by
    cases x <;> simp only [withoutParentheses, tree, reduceCtorEq, unaryBefore.injEq] at h
    obtain ⟨-, rfl, h⟩ := h
    obtain ⟨z, hz, htree⟩ := exists_rebracketed y h
    exact ⟨_, hz.inside fun h => .unaryBefore _ _ h, by rw [tree, tree, htree]⟩
  | x, unaryBehind _ op y, h => by
    cases x <;> simp only [withoutParentheses, tree, reduceCtorEq, unaryBehind.injEq] at h
    obtain ⟨-, rfl, h⟩ := h
    obtain ⟨z, hz, htree⟩ := exists_rebracketed y h
    exact ⟨_, hz.inside fun h => .unaryBehind _ _ h, by rw [tree, tree, htree]⟩
  | x, binary _ op l r, h => by
    cases x <;> simp only [withoutParentheses, tree, reduceCtorEq, binary.injEq] at h
    obtain ⟨-, rfl, hl, hr⟩ := h
    obtain ⟨z, hz, htree⟩ := exists_rebracketed l hl
    obtain ⟨z', hz', htree'⟩ := exists_rebracketed r hr
    exact ⟨_, .binary _ _ hz hz', by rw [tree, tree, htree, htree']⟩
  | x, subscript _ a i, h => by
    cases x <;> simp only [withoutParentheses, tree, reduceCtorEq, subscript.injEq] at h
    obtain ⟨-, ha, hi⟩ := h
    obtain ⟨z, hz, htree⟩ := exists_rebracketed a ha
    obtain ⟨z', hz', htree'⟩ := exists_rebracketed i hi
    exact ⟨_, .subscript _ hz hz', by rw [tree, tree, htree, htree']⟩
  | x, call _ f args, h => by
    cases x <;> simp only [withoutParentheses, tree, reduceCtorEq, call.injEq] at h
    obtain ⟨-, rfl, hargs⟩ := h
    obtain ⟨zs, hzs, htree⟩ := exists_rebracketedAll args hargs
    exact ⟨_, .call _ _ hzs, by rw [tree, tree, htree]⟩

theorem exists_rebracketedAll : ∀ {xs : List Expr} (ys : List Expr),
    treeAll xs = treeAll (withoutParenthesesAll ys) →
    ∃ zs, List.Forall₂ Rebracketed xs zs ∧ treeAll zs = treeAll ys
  | [], [], _ => ⟨[], .nil, rfl⟩
  | [], _ :: _, h | _ :: _, [], h => by cases h
  | x :: xs, y :: ys, h => by
    obtain ⟨hx, hxs⟩ := List.cons.inj h
    obtain ⟨z, hz, htree⟩ := exists_rebracketed y hx
    obtain ⟨zs, hzs, htrees⟩ := exists_rebracketedAll ys hxs
    exact ⟨z :: zs, .cons hz hzs, by rw [treeAll, treeAll, htree, htrees]⟩

end

/-! ## The normal form -/

/-- A literal that is the node is an ordinary one. -/
def OrdinaryLiteral : Expr → Prop
  | literal _ value => value.Ordinary
  | var _ _ | unaryBefore _ _ _ | unaryBehind _ _ _ | binary _ _ _ _ | parentheses _ _
  | subscript _ _ _ | call _ _ _ => True

instance : DecidablePred OrdinaryLiteral
  | literal _ value => inferInstanceAs (Decidable value.Ordinary)
  | var _ _ | unaryBefore _ _ _ | unaryBehind _ _ _ | binary _ _ _ _ | parentheses _ _
  | subscript _ _ _ | call _ _ _ => inferInstanceAs (Decidable True)

/-- The literals of the expression are ordinary ones. -/
abbrev Ordinary (x : Expr) : Prop := ∀ y ∈ x.nodes, y.OrdinaryLiteral

theorem Ordinary.withoutParentheses {x : Expr} (h : x.Ordinary) :
    x.withoutParentheses.Ordinary := by
  intro y hy
  rw [nodes_withoutParentheses] at hy
  obtain ⟨z, hz, rfl⟩ := List.mem_map.mp hy
  have hordinary := h z (List.mem_filter.mp hz).1
  cases z with
  | literal => exact hordinary
  | parentheses => simp [isParentheses] at hz
  | _ => trivial

mutual

/-- Ordinary literals aside, expressions are compared by their trees. -/
theorem sameShape_iff : ∀ {x y : Expr}, x.Ordinary → y.Ordinary →
    (x.sameShape y = true ↔ x.tree = y.tree)
  | var _ v, y, _, _ => by cases y <;> simp [sameShape, tree, VarRef.sameVar]
  | literal _ a, y, hx, hy => by
    cases y with
    | literal _ b =>
      have ha : a.Ordinary := hx _ (List.mem_singleton_self _)
      have hb : b.Ordinary := hy _ (List.mem_singleton_self _)
      simpa [sameShape, tree] using Literal.sameValue_iff ha hb
    | _ => simp [sameShape, tree]
  | unaryBefore _ _ x, y, hx, hy => by
    cases y with
    | unaryBefore _ _ y =>
      have ih := sameShape_iff (List.forall_mem_cons.mp hx).2 (List.forall_mem_cons.mp hy).2
      simp [sameShape, tree, ih]
    | _ => simp [sameShape, tree]
  | unaryBehind _ _ x, y, hx, hy => by
    cases y with
    | unaryBehind _ _ y =>
      have ih := sameShape_iff (List.forall_mem_cons.mp hx).2 (List.forall_mem_cons.mp hy).2
      simp [sameShape, tree, ih]
    | _ => simp [sameShape, tree]
  | parentheses _ x, y, hx, hy => by
    cases y with
    | parentheses _ y =>
      have ih := sameShape_iff (List.forall_mem_cons.mp hx).2 (List.forall_mem_cons.mp hy).2
      simp [sameShape, tree, ih]
    | _ => simp [sameShape, tree]
  | binary _ _ l r, y, hx, hy => by
    cases y with
    | binary _ _ l' r' =>
      obtain ⟨hl, hr⟩ := List.forall_mem_append.mp (List.forall_mem_cons.mp hx).2
      obtain ⟨hl', hr'⟩ := List.forall_mem_append.mp (List.forall_mem_cons.mp hy).2
      simp [sameShape, tree, sameShape_iff hl hl', sameShape_iff hr hr', and_assoc]
    | _ => simp [sameShape, tree]
  | subscript _ a i, y, hx, hy => by
    cases y with
    | subscript _ a' i' =>
      obtain ⟨ha, hi⟩ := List.forall_mem_append.mp (List.forall_mem_cons.mp hx).2
      obtain ⟨ha', hi'⟩ := List.forall_mem_append.mp (List.forall_mem_cons.mp hy).2
      simp [sameShape, tree, sameShape_iff ha ha', sameShape_iff hi hi']
    | _ => simp [sameShape, tree]
  | call _ _ args, y, hx, hy => by
    cases y with
    | call _ _ args' =>
      have ih := sameShapes_iff (List.forall_mem_cons.mp hx).2 (List.forall_mem_cons.mp hy).2
      simp [sameShape, tree, ih]
    | _ => simp [sameShape, tree]

theorem sameShapes_iff : ∀ {xs ys : List Expr}, (∀ x ∈ nodesAll xs, x.OrdinaryLiteral) →
    (∀ y ∈ nodesAll ys, y.OrdinaryLiteral) → (sameShapes xs ys = true ↔ treeAll xs = treeAll ys)
  | [], [], _, _ => by simp [sameShapes]
  | [], _ :: _, _, _ | _ :: _, [], _, _ => by simp [sameShapes, treeAll]
  | _ :: _, _ :: _, hx, hy => by
    obtain ⟨hx, hxs⟩ := List.forall_mem_append.mp hx
    obtain ⟨hy, hys⟩ := List.forall_mem_append.mp hy
    simp [sameShapes, treeAll, sameShape_iff hx hy, sameShapes_iff hxs hys]

end

theorem isParentheses_of_mem_nodes_withoutParentheses {x y : Expr}
    (h : y ∈ x.withoutParentheses.nodes) : y.isParentheses = false := by
  rw [nodes_withoutParentheses] at h
  obtain ⟨z, hz, rfl⟩ := List.mem_map.mp h
  cases z with
  | parentheses => simp [isParentheses] at hz
  | _ => rfl

mutual

/-- An expression without parentheses is its own normal form. -/
theorem withoutParentheses_of_nodes : ∀ {x : Expr}, (∀ y ∈ x.nodes, y.isParentheses = false) →
    x.withoutParentheses = x
  | var _ _, _ | literal _ _, _ => rfl
  | parentheses _ _, h => absurd (List.forall_mem_cons.mp h).1 (by simp [isParentheses])
  | unaryBefore _ _ _, h | unaryBehind _ _ _, h => by
    rw [withoutParentheses, withoutParentheses_of_nodes (List.forall_mem_cons.mp h).2]
  | binary _ _ _ _, h => by
    obtain ⟨hl, hr⟩ := List.forall_mem_append.mp (List.forall_mem_cons.mp h).2
    rw [withoutParentheses, withoutParentheses_of_nodes hl, withoutParentheses_of_nodes hr]
  | subscript _ _ _, h => by
    obtain ⟨ha, hi⟩ := List.forall_mem_append.mp (List.forall_mem_cons.mp h).2
    rw [withoutParentheses, withoutParentheses_of_nodes ha, withoutParentheses_of_nodes hi]
  | call _ _ _, h => by
    rw [withoutParentheses, withoutParenthesesAll_of_nodes (List.forall_mem_cons.mp h).2]

theorem withoutParenthesesAll_of_nodes : ∀ {xs : List Expr},
    (∀ y ∈ nodesAll xs, y.isParentheses = false) → withoutParenthesesAll xs = xs
  | [], _ => rfl
  | _ :: _, h => by
    obtain ⟨hx, hxs⟩ := List.forall_mem_append.mp h
    rw [withoutParenthesesAll, withoutParentheses_of_nodes hx, withoutParenthesesAll_of_nodes hxs]

end

/-- **The normal form of an expression up to parentheses.** Nothing in it is in parentheses, it is
its own normal form, and an expression with parentheses around one of its parts has the same one.
Where literals are ordinary ones, two expressions have normal forms of the same shape exactly if
parentheses can be added to the first and removed from it until it is the second, up to the places
and the names of variables. -/
theorem withoutParentheses_normal :
    (∀ x : Expr, (∀ y ∈ x.withoutParentheses.nodes, y.isParentheses = false) ∧
      x.withoutParentheses.withoutParentheses = x.withoutParentheses ∧
      ∀ y, Somewhere (fun part whole => whole = part.enclosed) x y →
        y.withoutParentheses = x.withoutParentheses) ∧
    ∀ x y : Expr, x.Ordinary → y.Ordinary →
      (x.withoutParentheses.sameShape y.withoutParentheses = true ↔
        ∃ z, x.Rebracketed z ∧ z.tree = y.tree) := by
  refine ⟨fun x => ⟨?_, ?_, fun y hy => ?_⟩, fun x y hx hy => ?_⟩
  · exact fun y => isParentheses_of_mem_nodes_withoutParentheses
  · exact withoutParentheses_of_nodes fun y => isParentheses_of_mem_nodes_withoutParentheses
  · apply hy.withoutParentheses_eq
    rintro part _ rfl
    exact withoutParentheses_enclosed part
  · rw [sameShape_iff hx.withoutParentheses hy.withoutParentheses]
    constructor
    · intro h
      obtain ⟨z, hz, htree⟩ := exists_rebracketed y h
      exact ⟨z, (rebracketed_withoutParentheses x).trans hz, htree⟩
    · rintro ⟨z, hz, htree⟩
      calc x.withoutParentheses.tree = z.withoutParentheses.tree := by rw [hz.withoutParentheses_eq]
        _ = z.tree.withoutParentheses := tree_withoutParentheses z
        _ = y.tree.withoutParentheses := by rw [htree]
        _ = y.withoutParentheses.tree := (tree_withoutParentheses y).symm

/-- `(n) + 1` becomes `(m + (1))` where `n` and `m` are two names of one variable, but `i - (n - 1)`
does not become `(i - n) - 1`. -/
theorem withoutParentheses_normal_sums :
    let literal := Expr.literal ⟨⟨1, 9, 8⟩, ⟨1, 10, 9⟩⟩ (.int 1)
    let i := var Span.none ⟨0, "i"⟩
    let n := var ⟨⟨1, 2, 1⟩, ⟨1, 3, 2⟩⟩ ⟨1, "n"⟩
    let m := var Span.none ⟨1, "m"⟩
    (∃ z, (binary Span.none .add (parentheses Span.none n) literal).Rebracketed z ∧
      z.tree = (parentheses Span.none
        (binary Span.none .add m (parentheses Span.none literal))).tree) ∧
    ¬ ∃ z, (binary Span.none .sub i (parentheses Span.none
        (binary Span.none .sub n literal))).Rebracketed z ∧
      z.tree = (binary Span.none .sub (parentheses Span.none
        (binary Span.none .sub i n)) literal).tree := by
  constructor
  · exact (withoutParentheses_normal.2 _ _ (by decide) (by decide)).mp (by decide)
  · exact fun h => absurd
      ((withoutParentheses_normal.2 _ _ (by decide) (by decide)).mpr h) (by decide)

end Expr

end LoopNest
