import LoopNest.Proofs.Expr.Words

/-!
# Expressions with other numbers of variables

The spans of an expression and the numbers of its variables may be replaced. What is left if all
of them are is the shape of the expression: its operators, names and literals.

* `Expr.relabel`: an expression without spans and with new numbers for its variables.
* `Expr.shape`: an expression without spans and numbers.
* `Expr.nodes_relabel`: its nodes are those of the expression, each of them relabelled.
* `Expr.relabel_eq`: two expressions are the same one if their shapes and their variables are.
-/

namespace LoopNest

/-- The same name with another number. -/
def VarRef.relabel (σ : Nat → Nat) (v : VarRef) : VarRef := ⟨σ v.id, v.name⟩

namespace Expr

mutual

/-- The expression without its spans, and with `σ id` in place of the number `id`. -/
def relabel (σ : Nat → Nat) : Expr → Expr
  | var _ v => var Span.none (v.relabel σ)
  | literal _ value => literal Span.none value
  | unaryBefore _ op x => unaryBefore Span.none op (x.relabel σ)
  | unaryBehind _ op x => unaryBehind Span.none op (x.relabel σ)
  | binary _ op l r => binary Span.none op (l.relabel σ) (r.relabel σ)
  | parentheses _ x => parentheses Span.none (x.relabel σ)
  | subscript _ a i => subscript Span.none (a.relabel σ) (i.relabel σ)
  | call _ f args => call Span.none f (relabelAll σ args)

def relabelAll (σ : Nat → Nat) : List Expr → List Expr
  | [] => []
  | x :: xs => x.relabel σ :: relabelAll σ xs

end

theorem relabelAll_eq (σ : Nat → Nat) (xs : List Expr) : relabelAll σ xs = xs.map (relabel σ) := by
  induction xs with
  | nil => rfl
  | cons x xs ih => rw [relabelAll, ih, List.map_cons]

/-- The expression without spans and without numbers of variables. -/
def shape (x : Expr) : Expr := x.relabel fun _ => 0

mutual

theorem relabel_relabel (σ τ : Nat → Nat) : ∀ x : Expr, (x.relabel σ).relabel τ = x.relabel (τ ∘ σ)
  | var _ _ | literal _ _ => rfl
  | unaryBefore _ _ x | unaryBehind _ _ x | parentheses _ x => by
    simp only [relabel, relabel_relabel σ τ x]
  | binary _ _ l r => by simp only [relabel, relabel_relabel σ τ l, relabel_relabel σ τ r]
  | subscript _ a i => by simp only [relabel, relabel_relabel σ τ a, relabel_relabel σ τ i]
  | call _ _ args => by simp only [relabel, relabelAll_relabelAll σ τ args]

theorem relabelAll_relabelAll (σ τ : Nat → Nat) : ∀ xs : List Expr,
    relabelAll τ (relabelAll σ xs) = relabelAll (τ ∘ σ) xs
  | [] => rfl
  | x :: xs => by simp only [relabelAll, relabel_relabel σ τ x, relabelAll_relabelAll σ τ xs]

end

theorem shape_relabel (σ : Nat → Nat) (x : Expr) : (x.relabel σ).shape = x.shape :=
  relabel_relabel σ _ x

variable {x y : Expr}

theorem binding_relabel (σ : Nat → Nat) (x : Expr) : (x.relabel σ).binding = x.binding := by
  cases x <;> rfl

mutual

theorem text_relabel (σ : Nat → Nat) : ∀ x : Expr, (x.relabel σ).text = x.text
  | var _ v => rfl
  | literal _ value => rfl
  | unaryBefore _ op x => by rw [relabel, text, text, binding_relabel, text_relabel σ x]
  | unaryBehind _ op x => by rw [relabel, text, text, binding_relabel, text_relabel σ x]
  | binary _ op l r => by
    rw [relabel, text, text, binding_relabel, binding_relabel, text_relabel σ l, text_relabel σ r]
  | parentheses _ x => by rw [relabel, text, text, text_relabel σ x]
  | subscript _ a i => by
    rw [relabel, text, text, binding_relabel, text_relabel σ a, text_relabel σ i]
  | call _ f args => by rw [relabel, text, text, texts_relabel σ args]

theorem texts_relabel (σ : Nat → Nat) : ∀ xs : List Expr, texts (relabelAll σ xs) = texts xs
  | [] => rfl
  | x :: xs => by rw [relabelAll, texts, texts, text_relabel σ x, texts_relabel σ xs]

end

mutual

theorem nodes_relabel (σ : Nat → Nat) : ∀ x : Expr, (x.relabel σ).nodes = x.nodes.map (relabel σ)
  | var _ _ | literal _ _ => rfl
  | unaryBefore _ _ x | unaryBehind _ _ x | parentheses _ x => by
    simp only [relabel, nodes, nodes_relabel σ x, List.map_cons]
  | binary _ _ l r => by
    simp only [relabel, nodes, nodes_relabel σ l, nodes_relabel σ r, List.map_cons, List.map_append]
  | subscript _ a i => by
    simp only [relabel, nodes, nodes_relabel σ a, nodes_relabel σ i, List.map_cons, List.map_append]
  | call _ _ args => by
    simp only [relabel, nodes, nodesAll_relabel σ args, List.map_cons]

theorem nodesAll_relabel (σ : Nat → Nat) : ∀ xs : List Expr,
    nodesAll (relabelAll σ xs) = (nodesAll xs).map (relabel σ)
  | [] => rfl
  | x :: xs => by
    simp only [relabelAll, nodesAll, nodes_relabel σ x, nodesAll_relabel σ xs, List.map_append]

end

theorem refs_relabel (σ : Nat → Nat) (x : Expr) :
    (x.relabel σ).refs = x.refs.map (·.relabel σ) := by
  have hvar (y : Expr) : (y.relabel σ).var? = y.var?.map (·.relabel σ) := by cases y <;> rfl
  rw [refs, nodes_relabel, List.filterMap_map, refs, List.map_filterMap]
  exact congrArg (List.filterMap · x.nodes) (funext hvar)

theorem refs_relabelAll (σ : Nat → Nat) (xs : List Expr) :
    (relabelAll σ xs).flatMap refs = (xs.flatMap refs).map (·.relabel σ) := by
  rw [relabelAll_eq, List.flatMap_map, List.map_flatMap]
  exact congrArg (List.flatMap · xs) (funext (refs_relabel σ))

theorem length_refs_eq (h : x.shape = y.shape) : x.refs.length = y.refs.length := by
  have hx := congrArg List.length (refs_relabel (fun _ => 0) x)
  have hy := congrArg List.length (refs_relabel (fun _ => 0) y)
  rw [List.length_map] at hx hy
  rw [← hx, ← hy]
  exact congrArg (fun z => z.refs.length) h

theorem map_append_inj {α β γ : Type} {f : α → γ} {g : β → γ} {as as' : List α} {bs bs' : List β}
    (hlength : as.length = bs.length) (h : (as ++ as').map f = (bs ++ bs').map g) :
    as.map f = bs.map g ∧ as'.map f = bs'.map g := by
  rw [List.map_append, List.map_append] at h
  exact List.append_inj h (by rw [List.length_map, List.length_map, hlength])

mutual

/-- Expressions of the same shape are the same if their variables are. -/
theorem relabel_eq {σ τ : Nat → Nat} : ∀ {x y : Expr}, x.shape = y.shape →
    x.refs.map (·.relabel σ) = y.refs.map (·.relabel τ) → x.relabel σ = y.relabel τ
  | var _ v, y, hshape, hrefs => by
    cases y <;> simp only [shape, relabel, reduceCtorEq] at hshape
    obtain ⟨hv, -⟩ := List.cons.inj hrefs
    exact congrArg (var Span.none) hv
  | literal _ value, y, hshape, _ => by
    cases y <;> simp only [shape, relabel, reduceCtorEq] at hshape
    exact hshape
  | unaryBefore _ op x, y, hshape, hrefs => by
    cases y <;> simp only [shape, relabel, reduceCtorEq, unaryBefore.injEq, true_and] at hshape
    rw [relabel, relabel, hshape.1, relabel_eq hshape.2 hrefs]
  | unaryBehind _ op x, y, hshape, hrefs => by
    cases y <;> simp only [shape, relabel, reduceCtorEq, unaryBehind.injEq, true_and] at hshape
    rw [relabel, relabel, hshape.1, relabel_eq hshape.2 hrefs]
  | binary _ op l r, y, hshape, hrefs => by
    cases y <;> simp only [shape, relabel, reduceCtorEq, binary.injEq, true_and] at hshape
    obtain ⟨hop, hl, hr⟩ := hshape
    rw [refs_binary, refs_binary] at hrefs
    obtain ⟨hrefs, hrefs'⟩ := map_append_inj (length_refs_eq hl) hrefs
    rw [relabel, relabel, hop, relabel_eq hl hrefs, relabel_eq hr hrefs']
  | parentheses _ x, y, hshape, hrefs => by
    cases y <;> simp only [shape, relabel, reduceCtorEq, parentheses.injEq, true_and] at hshape
    rw [relabel, relabel, relabel_eq hshape hrefs]
  | subscript _ a i, y, hshape, hrefs => by
    cases y <;> simp only [shape, relabel, reduceCtorEq, subscript.injEq, true_and] at hshape
    obtain ⟨ha, hi⟩ := hshape
    rw [refs_subscript, refs_subscript] at hrefs
    obtain ⟨hrefs, hrefs'⟩ := map_append_inj (length_refs_eq ha) hrefs
    rw [relabel, relabel, relabel_eq ha hrefs, relabel_eq hi hrefs']
  | call _ f args, y, hshape, hrefs => by
    cases y <;> simp only [shape, relabel, reduceCtorEq, call.injEq, true_and] at hshape
    rw [refs_call, refs_call] at hrefs
    rw [relabel, relabel, hshape.1, relabelAll_eq_of hshape.2 hrefs]

theorem relabelAll_eq_of {σ τ : Nat → Nat} : ∀ {xs ys : List Expr},
    relabelAll (fun _ => 0) xs = relabelAll (fun _ => 0) ys →
    (xs.flatMap refs).map (·.relabel σ) = (ys.flatMap refs).map (·.relabel τ) →
    relabelAll σ xs = relabelAll τ ys
  | [], [], _, _ => rfl
  | [], y :: ys, hshape, _ => by cases hshape
  | x :: xs, [], hshape, _ => by cases hshape
  | x :: xs, y :: ys, hshape, hrefs => by
    obtain ⟨hx, hxs⟩ := List.cons.inj hshape
    rw [List.flatMap_cons, List.flatMap_cons] at hrefs
    obtain ⟨hrefs, hrefs'⟩ := map_append_inj (length_refs_eq hx) hrefs
    rw [relabelAll, relabelAll, relabel_eq hx hrefs, relabelAll_eq_of hxs hrefs']

end

end Expr

end LoopNest
