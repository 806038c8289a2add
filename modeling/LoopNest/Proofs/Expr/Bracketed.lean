import LoopNest.Proofs.Expr.Relabel

/-!
# Parentheses that a text adds

The text of an expression has parentheses where its tree has none and would be read differently. It
is the text of another tree, which has all of them.

* `Expr.bracketed`: the expression with the parentheses of its text.
* `Expr.text_bracketed`: it has the same text, and no parentheses are added to it.
* `Expr.grammatical_bracketed`: its operands bind as tightly as their places ask for.
* `Expr.Grammatical.bracketed_eq`: an expression of the form that the grammar asks for has all
  parentheses already.
* `Expr.nodes_withoutParentheses`: what is left of the nodes without any parentheses.
-/

namespace LoopNest

namespace Expr

/-! ## Operands in their places -/

/-- The operand for a place that asks for a level: in parentheses if it binds less. -/
def atLevel (level : Nat) (x : Expr) : Expr :=
  if x.binding < level then parentheses x.span x else x

section

variable {level : Nat} (x : Expr)

theorem atLevel_of_le (h : level ≤ x.binding) : x.atLevel level = x := if_neg (Nat.not_lt.mpr h)

theorem le_binding_atLevel (h : level ≤ 9) : level ≤ (x.atLevel level).binding := by
  unfold atLevel
  split
  · exact h
  · next hle => exact Nat.le_of_not_lt hle

/-- Parentheses are not put twice. -/
theorem operandText_atLevel (h : level ≤ 9) :
    operandText level (x.atLevel level).binding (x.atLevel level).text =
      operandText level x.binding x.text := by
  rw [toList_operandText (x.le_binding_atLevel h)]
  unfold atLevel operandText
  split <;> rfl

theorem withoutParentheses_atLevel :
    (x.atLevel level).withoutParentheses = x.withoutParentheses := by
  unfold atLevel
  split <;> rfl

theorem Grammatical.atLevel {x : Expr} (h : x.Grammatical) : (x.atLevel level).Grammatical := by
  unfold Expr.atLevel
  split <;> exact h

theorem isSigned_atLevel {x : Expr} (h : x.isSigned = false) :
    (x.atLevel level).isSigned = false := by
  unfold atLevel
  split
  · rfl
  · exact h

end

theorem levels_le (op : BinaryOp) : leftLevel op ≤ 9 ∧ rightLevel op ≤ 9 := by
  cases op <;> decide

/-! ## All parentheses -/

mutual

/-- The expression with the parentheses that its text has. -/
def bracketed : Expr → Expr
  | var s v => var s v
  | literal s value => literal s value
  | unaryBefore s op x => unaryBefore s op (x.bracketed.atLevel 8)
  | unaryBehind s op x => unaryBehind s op (x.bracketed.atLevel 9)
  | binary s op l r =>
    binary s op (l.bracketed.atLevel (leftLevel op)) (r.bracketed.atLevel (rightLevel op))
  -- No level is asked of what has parentheses, brackets or commas around it already.
  | parentheses s x => parentheses s x.bracketed
  | subscript s a i => subscript s (a.bracketed.atLevel 9) i.bracketed
  | call s f args => call s f (bracketedAll args)

def bracketedAll : List Expr → List Expr
  | [] => []
  | x :: xs => x.bracketed :: bracketedAll xs

end

/-- The parentheses are those of operands, so none are around the whole expression. -/
theorem binding_bracketed (x : Expr) : x.bracketed.binding = x.binding := by cases x <;> rfl

theorem isSigned_bracketed (x : Expr) : x.bracketed.isSigned = x.isSigned := by cases x <;> rfl

mutual

/-- The parentheses are those of the text. -/
theorem text_bracketed : ∀ x : Expr, x.bracketed.text = x.text
  | var _ _ | literal _ _ => rfl
  | unaryBefore _ op x => by
    rw [bracketed, text, text, operandText_atLevel _ (by decide), binding_bracketed,
      text_bracketed x]
  | unaryBehind _ op x => by
    rw [bracketed, text, text, operandText_atLevel _ (by decide), binding_bracketed,
      text_bracketed x]
  | binary _ op l r => by
    rw [bracketed, text, text, operandText_atLevel _ (levels_le op).1,
      operandText_atLevel _ (levels_le op).2, binding_bracketed, binding_bracketed,
      text_bracketed l, text_bracketed r]
  | parentheses _ x => by rw [bracketed, text, text, text_bracketed x]
  | subscript _ a i => by
    rw [bracketed, text, text, operandText_atLevel _ (by decide), binding_bracketed,
      text_bracketed a, text_bracketed i]
  | call _ f args => by rw [bracketed, text, text, texts_bracketedAll args]

theorem texts_bracketedAll : ∀ xs : List Expr, texts (bracketedAll xs) = texts xs
  | [] => rfl
  | x :: xs => by rw [bracketedAll, texts, texts, text_bracketed x, texts_bracketedAll xs]

end

mutual

/-- Nothing but parentheses is added. -/
theorem withoutParentheses_bracketed : ∀ x : Expr,
    x.bracketed.withoutParentheses = x.withoutParentheses
  | var _ _ | literal _ _ => rfl
  | unaryBefore _ _ x | unaryBehind _ _ x => by
    simp only [bracketed, withoutParentheses, withoutParentheses_atLevel,
      withoutParentheses_bracketed x]
  | binary _ _ l r => by
    simp only [bracketed, withoutParentheses, withoutParentheses_atLevel,
      withoutParentheses_bracketed l, withoutParentheses_bracketed r]
  | parentheses _ x => withoutParentheses_bracketed x
  | subscript _ a i => by
    simp only [bracketed, withoutParentheses, withoutParentheses_atLevel,
      withoutParentheses_bracketed a, withoutParentheses_bracketed i]
  | call _ _ args => by
    rw [bracketed, withoutParentheses, withoutParentheses, withoutParenthesesAll_bracketed args]

theorem withoutParenthesesAll_bracketed : ∀ xs : List Expr,
    withoutParenthesesAll (bracketedAll xs) = withoutParenthesesAll xs
  | [] => rfl
  | x :: xs => by
    rw [bracketedAll, withoutParenthesesAll, withoutParenthesesAll,
      withoutParentheses_bracketed x, withoutParenthesesAll_bracketed xs]

end

mutual

/-- No parentheses are added where none are missing. -/
theorem Grammatical.bracketed_eq : ∀ {x : Expr}, x.Grammatical → x.bracketed = x
  | var _ _, _ | literal _ _, _ => rfl
  | unaryBefore _ _ x, ⟨hbinding, hx⟩ => by
    rw [bracketed, hx.bracketed_eq, x.atLevel_of_le hbinding]
  | unaryBehind _ _ x, ⟨_, hbinding, hx⟩ => by
    rw [bracketed, hx.bracketed_eq, x.atLevel_of_le hbinding]
  | binary _ _ l r, ⟨⟨hbinding, hl⟩, hbinding', hr⟩ => by
    rw [bracketed, hl.bracketed_eq, hr.bracketed_eq, l.atLevel_of_le hbinding,
      r.atLevel_of_le hbinding']
  | parentheses _ x, hx => by rw [bracketed, Grammatical.bracketed_eq (x := x) hx]
  | subscript _ a i, ⟨⟨hbinding, ha⟩, hi⟩ => by
    rw [bracketed, ha.bracketed_eq, hi.bracketed_eq, a.atLevel_of_le hbinding]
  | call _ _ args, ⟨_, hargs⟩ => by rw [bracketed, hargs.bracketedAll_eq]

theorem GrammaticalAll.bracketedAll_eq : ∀ {xs : List Expr}, GrammaticalAll xs →
    bracketedAll xs = xs
  | [], _ => rfl
  | _ :: _, ⟨hx, hxs⟩ => by rw [bracketedAll, hx.bracketed_eq, hxs.bracketedAll_eq]

end

/-! ## The form of an expression with all parentheses -/

/-- What a node needs besides parentheses to have the form that the grammar asks for. -/
def Writable : Expr → Prop
  | var _ v => Text.IsName v.name
  | literal _ value => value.Grammatical
  | unaryBehind _ op _ => op = .increment ∨ op = .decrement
  | call _ f _ => Text.IsName f
  | unaryBefore _ _ _ | binary _ _ _ _ | parentheses _ _ | subscript _ _ _ => True

mutual

/-- All that parentheses can be missing for is that an operand binds too little. -/
theorem grammatical_bracketed : ∀ {x : Expr}, (∀ y ∈ x.nodes, y.Writable) → x.bracketed.Grammatical
  | var _ _, h | literal _ _, h => h _ (List.mem_singleton_self _)
  | unaryBefore _ _ x, h => by
    have hx := grammatical_bracketed (List.forall_mem_cons.mp h).2
    exact ⟨le_binding_atLevel _ (by decide), hx.atLevel⟩
  | unaryBehind _ _ x, h => by
    obtain ⟨hop, hx⟩ := List.forall_mem_cons.mp h
    have hx := grammatical_bracketed hx
    exact ⟨hop, le_binding_atLevel _ (by decide), hx.atLevel⟩
  | binary _ op l r, h => by
    obtain ⟨hl, hr⟩ := List.forall_mem_append.mp (List.forall_mem_cons.mp h).2
    have hl := grammatical_bracketed hl
    have hr := grammatical_bracketed hr
    exact ⟨⟨le_binding_atLevel _ (levels_le op).1, hl.atLevel⟩,
      le_binding_atLevel _ (levels_le op).2, hr.atLevel⟩
  | parentheses _ x, h => grammatical_bracketed (x := x) (List.forall_mem_cons.mp h).2
  | subscript _ a i, h => by
    obtain ⟨ha, hi⟩ := List.forall_mem_append.mp (List.forall_mem_cons.mp h).2
    have ha := grammatical_bracketed ha
    exact ⟨⟨le_binding_atLevel _ (by decide), ha.atLevel⟩, grammatical_bracketed hi⟩
  | call _ _ _, h => by
    obtain ⟨hf, hargs⟩ := List.forall_mem_cons.mp h
    exact ⟨hf, grammaticalAll_bracketed hargs⟩

theorem grammaticalAll_bracketed : ∀ {xs : List Expr}, (∀ y ∈ nodesAll xs, y.Writable) →
    GrammaticalAll (bracketedAll xs)
  | [], _ => trivial
  | _ :: _, h => by
    obtain ⟨hx, hxs⟩ := List.forall_mem_append.mp h
    exact ⟨grammatical_bracketed hx, grammaticalAll_bracketed hxs⟩

end

/-! ## The nodes of an expression with all parentheses -/

variable {P : Expr → Prop}

theorem forall_nodes_atLevel (hadded : ∀ s x, P (parentheses s x)) {level : Nat} {x : Expr}
    (h : ∀ y ∈ x.nodes, P y) : ∀ y ∈ (x.atLevel level).nodes, P y := by
  unfold atLevel
  split
  · exact List.forall_mem_cons.mpr ⟨hadded _ _, h⟩
  · exact h

mutual

/-- A node is one of the parentheses that are added, or comes of a node. -/
theorem forall_nodes_bracketed (hadded : ∀ s x, P (parentheses s x)) : ∀ {x : Expr},
    (∀ y ∈ x.nodes, P y.bracketed) → ∀ y ∈ x.bracketed.nodes, P y
  | var _ _, h | literal _ _, h => by simpa [nodes, bracketed] using h
  | unaryBefore _ _ x, h | unaryBehind _ _ x, h => by
    obtain ⟨hself, hx⟩ := List.forall_mem_cons.mp h
    have hx := forall_nodes_bracketed hadded hx
    exact List.forall_mem_cons.mpr ⟨hself, forall_nodes_atLevel hadded hx⟩
  | parentheses _ x, h => by
    obtain ⟨hself, hx⟩ := List.forall_mem_cons.mp h
    exact List.forall_mem_cons.mpr ⟨hself, forall_nodes_bracketed hadded hx⟩
  | binary _ _ l r, h => by
    obtain ⟨hself, hboth⟩ := List.forall_mem_cons.mp h
    obtain ⟨hl, hr⟩ := List.forall_mem_append.mp hboth
    have hl := forall_nodes_bracketed hadded hl
    have hr := forall_nodes_bracketed hadded hr
    exact List.forall_mem_cons.mpr ⟨hself, List.forall_mem_append.mpr
      ⟨forall_nodes_atLevel hadded hl, forall_nodes_atLevel hadded hr⟩⟩
  | subscript _ a i, h => by
    obtain ⟨hself, hboth⟩ := List.forall_mem_cons.mp h
    obtain ⟨ha, hi⟩ := List.forall_mem_append.mp hboth
    have ha := forall_nodes_bracketed hadded ha
    exact List.forall_mem_cons.mpr ⟨hself, List.forall_mem_append.mpr
      ⟨forall_nodes_atLevel hadded ha, forall_nodes_bracketed hadded hi⟩⟩
  | call _ _ args, h => by
    obtain ⟨hself, hargs⟩ := List.forall_mem_cons.mp h
    exact List.forall_mem_cons.mpr ⟨hself, forall_nodesAll_bracketed hadded hargs⟩

theorem forall_nodesAll_bracketed (hadded : ∀ s x, P (parentheses s x)) : ∀ {xs : List Expr},
    (∀ y ∈ nodesAll xs, P y.bracketed) → ∀ y ∈ nodesAll (bracketedAll xs), P y
  | [], _ => fun _ hy => absurd hy List.not_mem_nil
  | _ :: _, h => by
    obtain ⟨hx, hxs⟩ := List.forall_mem_append.mp h
    have hx := forall_nodes_bracketed hadded hx
    exact List.forall_mem_append.mpr ⟨hx, forall_nodesAll_bracketed hadded hxs⟩

end

/-- Parentheses keep apart what was apart. -/
theorem SignApart.bracketed {x : Expr} (h : x.SignApart) : x.bracketed.SignApart := by
  cases x with
  | unaryBefore s op x =>
    cases op with
    | negate => exact isSigned_atLevel ((isSigned_bracketed x).trans h)
    | _ => trivial
  | _ => trivial

/-! ## Expressions without parentheses -/

mutual

theorem withoutParentheses_relabel (σ : Nat → Nat) : ∀ x : Expr,
    (x.relabel σ).withoutParentheses = x.withoutParentheses.relabel σ
  | var _ _ | literal _ _ => rfl
  | unaryBefore _ _ x | unaryBehind _ _ x => by
    simp only [relabel, withoutParentheses, withoutParentheses_relabel σ x]
  | parentheses _ x => withoutParentheses_relabel σ x
  | binary _ _ l r => by
    simp only [relabel, withoutParentheses, withoutParentheses_relabel σ l,
      withoutParentheses_relabel σ r]
  | subscript _ a i => by
    simp only [relabel, withoutParentheses, withoutParentheses_relabel σ a,
      withoutParentheses_relabel σ i]
  | call _ _ args => by
    simp only [relabel, withoutParentheses, withoutParenthesesAll_relabel σ args]

theorem withoutParenthesesAll_relabel (σ : Nat → Nat) : ∀ xs : List Expr,
    withoutParenthesesAll (relabelAll σ xs) = relabelAll σ (withoutParenthesesAll xs)
  | [] => rfl
  | x :: xs => by
    simp only [relabelAll, withoutParenthesesAll, withoutParentheses_relabel σ x,
      withoutParenthesesAll_relabel σ xs]

end

theorem shape_withoutParentheses (x : Expr) :
    x.withoutParentheses.shape = x.shape.withoutParentheses :=
  (withoutParentheses_relabel _ x).symm

def isParentheses : Expr → Bool
  | parentheses _ _ => true
  | _ => false

mutual

theorem nodes_withoutParentheses : ∀ x : Expr,
    x.withoutParentheses.nodes = (x.nodes.filter (!·.isParentheses)).map withoutParentheses
  | var _ _ | literal _ _ => rfl
  | parentheses _ x => nodes_withoutParentheses x
  | unaryBefore _ _ x | unaryBehind _ _ x => by
    simp [withoutParentheses, nodes, isParentheses, nodes_withoutParentheses x]
  | binary _ _ l r => by
    simp [withoutParentheses, nodes, isParentheses, nodes_withoutParentheses l,
      nodes_withoutParentheses r]
  | subscript _ a i => by
    simp [withoutParentheses, nodes, isParentheses, nodes_withoutParentheses a,
      nodes_withoutParentheses i]
  | call _ _ args => by
    simp [withoutParentheses, nodes, isParentheses, nodesAll_withoutParentheses args]

theorem nodesAll_withoutParentheses : ∀ xs : List Expr, nodesAll (withoutParenthesesAll xs) =
    ((nodesAll xs).filter (!·.isParentheses)).map withoutParentheses
  | [] => rfl
  | x :: xs => by
    simp [withoutParenthesesAll, nodesAll, nodes_withoutParentheses x,
      nodesAll_withoutParentheses xs]

end

/-- An operator behind an operand is one of those that may stand there. -/
def StepsBehind : Expr → Prop
  | unaryBehind _ op _ => op = .increment ∨ op = .decrement
  | var _ _ | literal _ _ | unaryBefore _ _ _ | binary _ _ _ _ | parentheses _ _ | subscript _ _ _
  | call _ _ _ => True

instance : DecidablePred StepsBehind
  | unaryBehind _ op _ => inferInstanceAs (Decidable (op = .increment ∨ op = .decrement))
  | var _ _ | literal _ _ | unaryBefore _ _ _ | binary _ _ _ _ | parentheses _ _ | subscript _ _ _
  | call _ _ _ => inferInstanceAs (Decidable True)

theorem stepsBehind_relabel (σ : Nat → Nat) (x : Expr) :
    (x.relabel σ).StepsBehind ↔ x.StepsBehind := by
  cases x <;> rfl

theorem forall_stepsBehind_relabel (σ : Nat → Nat) (x : Expr) :
    (∀ y ∈ (x.relabel σ).nodes, y.StepsBehind) ↔ ∀ y ∈ x.nodes, y.StepsBehind := by
  simp only [nodes_relabel, List.forall_mem_map, stepsBehind_relabel]

theorem forall_stepsBehind_withoutParentheses (x : Expr) :
    (∀ y ∈ x.withoutParentheses.nodes, y.StepsBehind) ↔ ∀ y ∈ x.nodes, y.StepsBehind := by
  rw [nodes_withoutParentheses]
  simp only [List.forall_mem_map, List.mem_filter]
  refine forall_congr' fun y => ?_
  cases y <;> simp [isParentheses, StepsBehind, withoutParentheses]

end Expr

end LoopNest
