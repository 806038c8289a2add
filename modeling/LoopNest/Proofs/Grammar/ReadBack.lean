import LoopNest.Proofs.Expr.Bracketed
import LoopNest.Proofs.Grammar.RoundTrip

/-!
# Expressions that are read back

The text of an expression is read as the expression. If parentheses are missing in its tree, then
its text has them, and they are all that may be different in what is read.

* `Expr.ofText?`: the expression that a text is.
* `Expr.Readable.isReadFrom`: expressions of the form that the grammar asks for are read from their
  texts.
* `Expr.IsParsed`: what reading yields.
* `Expr.stepsBehind_of_ofText?`: only what has nothing but `++` and `--` behind operands can be read
  back.
* `Expr.parentheses_suffice`: what is read from the text of an expression is the expression but for
  parentheses.
-/

namespace LoopNest

/-! ## Reading an expression -/

/-- The expression that a text is, if it is one and nothing else. -/
def Expr.ofText? (text : String) : Option Expr :=
  match Reader.ofSource text with
  | .error _ => none
  | .ok r =>
    match Grammar.expression r with
    | (.ok x, r') => if r'.problems.isEmpty && r'.atEnd then some x else none
    | (.error _, _) => none

/-- The text is an expression, which is `x` but for places and the numbers of variables. -/
def Expr.IsReadFrom (x : Expr) (text : String) : Prop :=
  ∃ y, ofText? text = some y ∧ y.shape = x.shape

namespace Expr

theorem Readable.isReadFrom {x : Expr} (h : x.Readable) : x.IsReadFrom x.text := by
  have hstops : Text.Stops [] := by simp [Text.Stops]
  have hspelled := spells h.1 h.2 hstops .done
  rw [List.append_nil, List.append_nil] at hspelled
  obtain ⟨r, hr, hready, _, hsees⟩ := Reader.sees_ofSource hspelled
  have hend : Word.endOfFile.Ends :=
    ⟨rfl, by simp [Word.endOfFile], by simp [Word.endOfFile], rfl⟩
  obtain ⟨y, hok, hready', _, hshape, hsees', _⟩ :=
    Grammar.expression_accepts h hend hsees hready
  rcases hrun : Grammar.expression r with ⟨result, r'⟩
  rw [hrun] at hok hready' hsees'
  obtain rfl : result = .ok y := hok
  refine ⟨y, ?_, hshape⟩
  have hproblems : r'.problems.isEmpty = true := by rw [hready'.problems]; rfl
  have hatEnd : r'.atEnd = true := by
    rw [Reader.atEnd, Token.isEnd, hsees'.kind_current]
    rfl
  simp only [ofText?, hr, hrun, hproblems, hatEnd, Bool.and_self, if_true]

theorem grammatical_of_ofText? {text : String} {x : Expr} (h : ofText? text = some x) :
    x.Grammatical := by
  unfold ofText? at h
  cases hr : Reader.ofSource text with
  | error f => simp [hr] at h
  | ok r =>
    obtain ⟨hsound, _⟩ := Reader.sound_of_ofSource hr
    have hensures : Grammar.expression.Ensures (scan text) r _ := Grammar.expression_ensures r
    unfold Parse.Ensures at hensures
    rcases hrun : Grammar.expression r with ⟨result, r'⟩
    simp only [hr, hrun] at h hensures
    cases result with
    | error failure => cases h
    | ok y =>
      dsimp only at h
      split at h
      · next hdone =>
        obtain rfl := Option.some.inj h
        rw [Bool.and_eq_true] at hdone
        obtain ⟨_, hread⟩ := hensures (List.isEmpty_iff.mp hdone.1)
        exact (hread hsound y rfl).2.2.2.1
      · cases h

/-- Whatever reading yields: the expression that a text is, or one in a program, or a part of one of
these. -/
inductive IsParsed : Expr → Prop
  | ofText {text : String} {x y : Expr} (hx : ofText? text = some x) (hy : y ∈ x.nodes) : IsParsed y
  | ofProgram {source : String} {p : Program} {x y : Expr} (hp : Program.read source = .ok p)
      (hx : x ∈ p.expressions) (hy : y ∈ x.nodes) : IsParsed y

theorem IsParsed.grammatical {x : Expr} (h : x.IsParsed) : x.Grammatical := by
  cases h with
  | ofText hx hy => exact (grammatical_of_ofText? hx).nodes x hy
  | ofProgram hp hx hy => exact (Program.grammatical_of_read hp _ hx).nodes x hy

/-! ## Expressions with readable words -/

/-- No minus stands right in front of another one, and no float is infinite. -/
def Legible (x : Expr) : Prop := ∀ y ∈ x.nodes, y.SignApart ∧ y.FiniteFloat

instance : DecidablePred Legible := fun x =>
  inferInstanceAs (Decidable (∀ y ∈ x.nodes, y.SignApart ∧ y.FiniteFloat))

theorem Legible.readable {x : Expr} (h : x.Legible) (hx : x.Grammatical) : x.Readable :=
  ⟨hx, fun y hy => ⟨(h y hy).1, (h y hy).2.readsBack (hx.nodes y hy)⟩⟩

/-- A name is a name, and a number has no sign. A whole number is not too large for the reader. -/
def Named : Expr → Prop
  | var _ v => Text.IsName v.name
  | call _ f _ => Text.IsName f
  | literal _ (.int n) => 0 ≤ n ∧ n ≤ Grammar.maxInteger
  | literal _ (.float x) => x.negative = false
  | literal _ (.bool _) | unaryBefore _ _ _ | unaryBehind _ _ _ | binary _ _ _ _ | parentheses _ _
  | subscript _ _ _ => True

instance : DecidablePred Named
  | var _ v => inferInstanceAs (Decidable (Text.IsName v.name))
  | call _ f _ => inferInstanceAs (Decidable (Text.IsName f))
  | literal _ (.int n) => inferInstanceAs (Decidable (0 ≤ n ∧ n ≤ Grammar.maxInteger))
  | literal _ (.float x) => inferInstanceAs (Decidable (x.negative = false))
  | literal _ (.bool _) | unaryBefore _ _ _ | unaryBehind _ _ _ | binary _ _ _ _ | parentheses _ _
  | subscript _ _ _ => inferInstanceAs (Decidable True)

/-- Every word of the text is read as what it stands for. Nothing is said of parentheses. -/
structure WellMade (x : Expr) : Prop where
  legible : x.Legible
  named : ∀ y ∈ x.nodes, y.Named

instance : DecidablePred WellMade := fun x =>
  decidable_of_iff (x.Legible ∧ ∀ y ∈ x.nodes, y.Named)
    ⟨fun ⟨h, h'⟩ => ⟨h, h'⟩, fun ⟨h, h'⟩ => ⟨h, h'⟩⟩

theorem Named.writable {x : Expr} (h : x.Named) (hfinite : x.FiniteFloat)
    (hbehind : x.StepsBehind) : x.Writable := by
  cases x with
  | var s v => exact h
  | call s f args => exact h
  | unaryBehind s op x => exact hbehind
  | literal s value =>
    cases value with
    | int n => exact ⟨n.toNat, (Int.toNat_of_nonneg h.1).symm, Int.toNat_le.mpr h.2⟩
    | float x => exact Binary64.exists_ofDecimal h hfinite
    | bool b => trivial
  | _ => trivial

theorem Grammatical.stepsBehind {x : Expr} (h : x.Grammatical) : ∀ y ∈ x.nodes, y.StepsBehind := by
  intro y hy
  have hy := h.nodes y hy
  cases y with
  | unaryBehind s op z => exact hy.1
  | _ => trivial

/-! ## Parentheses that are missing -/

theorem FiniteFloat.bracketed {x : Expr} (h : x.FiniteFloat) : x.bracketed.FiniteFloat := by
  cases x with
  | literal s value => exact h
  | _ => trivial

theorem Legible.bracketed {x : Expr} (h : x.Legible) : x.bracketed.Legible := by
  apply forall_nodes_bracketed
  · intro s y
    exact ⟨trivial, trivial⟩
  · intro y hy
    obtain ⟨hsign, hfinite⟩ := h y hy
    exact ⟨hsign.bracketed, hfinite.bracketed⟩

theorem WellMade.readable_bracketed {x : Expr} (h : x.WellMade)
    (hbehind : ∀ y ∈ x.nodes, y.StepsBehind) : x.bracketed.Readable := by
  apply h.legible.bracketed.readable
  apply grammatical_bracketed
  intro y hy
  exact (h.named y hy).writable (h.legible y hy).2 (hbehind y hy)

/-- Only `++` and `--` stand behind operands in what is read, and so in every expression that is the
same but for parentheses. -/
theorem stepsBehind_of_ofText? {text : String} {x y : Expr} (hy : ofText? text = some y)
    (hshape : y.withoutParentheses.shape = x.withoutParentheses.shape) :
    ∀ z ∈ x.nodes, z.StepsBehind := by
  have hread : ∀ z ∈ y.withoutParentheses.shape.nodes, z.StepsBehind := by
    rw [shape, forall_stepsBehind_relabel, forall_stepsBehind_withoutParentheses]
    exact (grammatical_of_ofText? hy).stepsBehind
  rwa [hshape, shape, forall_stepsBehind_relabel, forall_stepsBehind_withoutParentheses] at hread

/-- **The text has all parentheses that are needed.** Take any expression, read or made by hand, in
which names are names, numbers have no sign and are finite, no minus stands right in front of
another one, and only `++` and `--` stand behind their operands. Its text is an expression, and
without their parentheses the two are the same but for places and the numbers of variables. An
expression that was read is the one that its text is, parentheses included. -/
theorem parentheses_suffice {x : Expr} (h : x.WellMade) (hbehind : ∀ y ∈ x.nodes, y.StepsBehind) :
    ∃ y, ofText? x.text = some y ∧ y.withoutParentheses.shape = x.withoutParentheses.shape ∧
      (x.IsParsed → y.shape = x.shape) := by
  -- The tree itself need not be grammatical, so the one with all parentheses is read in its place.
  obtain ⟨y, hy, hshape⟩ := (h.readable_bracketed hbehind).isReadFrom
  rw [text_bracketed] at hy
  refine ⟨y, hy, ?_, fun hparsed => ?_⟩
  · calc
      y.withoutParentheses.shape = y.shape.withoutParentheses := shape_withoutParentheses y
      _ = x.bracketed.shape.withoutParentheses := by rw [hshape]
      _ = x.bracketed.withoutParentheses.shape := (shape_withoutParentheses _).symm
      _ = x.withoutParentheses.shape := by rw [withoutParentheses_bracketed]
  · rw [hshape, hparsed.grammatical.bracketed_eq]

/-- An expression that was read, and the same one without its parentheses: all of them are needed,
so that it has the same text. -/
theorem parentheses_suffice_nested :
    ∃ x, ofText? "(a = 7) = -(a + 2.5) * (!f(b, c - (d - a)))[b || (c = a)]++" = some x ∧
      x.WellMade ∧ (∀ y ∈ x.nodes, y.StepsBehind) ∧
      (∃ y, ofText? x.text = some y ∧ y.shape = x.shape) ∧
      let z := x.withoutParentheses
      z.WellMade ∧ (∀ y ∈ z.nodes, y.StepsBehind) ∧ z.text = x.text ∧
      ∃ y, ofText? z.text = some y ∧ y.withoutParentheses.shape = z.withoutParentheses.shape := by
  have hread : ∃ x ∈ ofText? "(a = 7) = -(a + 2.5) * (!f(b, c - (d - a)))[b || (c = a)]++",
      (x.WellMade ∧ ∀ y ∈ x.nodes, y.StepsBehind) ∧ x.withoutParentheses.text = x.text ∧
        x.withoutParentheses.WellMade ∧ ∀ y ∈ x.withoutParentheses.nodes, y.StepsBehind := by
    decide +kernel
  obtain ⟨x, hx, ⟨hmade, hbehind⟩, htext, hmade', hbehind'⟩ := hread
  have hparsed : x.IsParsed := .ofText hx (by cases x <;> simp [nodes])
  obtain ⟨y, hy, _, hshape⟩ := parentheses_suffice hmade hbehind
  obtain ⟨y', hy', hshape', _⟩ := parentheses_suffice hmade' hbehind'
  exact ⟨x, hx, hmade, hbehind, ⟨y, hy, hshape hparsed⟩, hmade', hbehind', htext, y', hy', hshape'⟩

/-- No parentheses help a minus behind its operand: the text `a- - b` is `a - -b`. -/
theorem parentheses_suffice_behind :
    let a := var Span.none ⟨0, "a"⟩
    let b := var Span.none ⟨1, "b"⟩
    let x := binary Span.none .sub (unaryBehind Span.none .negate a) b
    x.WellMade ∧ (ofText? x.text).map text = some "a - -b" ∧
      ¬ ∃ y, ofText? x.text = some y ∧ y.withoutParentheses.shape = x.withoutParentheses.shape := by
  refine ⟨?_, ?_, ?_⟩
  · decide +kernel
  · decide +kernel
  · rintro ⟨y, hy, hshape⟩
    have hminus := stepsBehind_of_ofText? hy hshape _ (.tail _ (.head _))
    revert hminus
    decide

end Expr

end LoopNest
