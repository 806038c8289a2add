import LoopNest.Proofs.Grammar.Alongside

/-!
# Expressions and attributes that are read alongside

Two texts with the same words up to where they part have the same expressions and attributes there.
No expression goes on over such a place.

* `Expr.Twin`, `Attribute.Twin`: the same but for spans, with corresponding variables.
* `Grammar.expression_fails`: no expression starts where texts part.
* `Grammar.expression_alongside`: expressions.
* `Grammar.Marks.alongside`: attributes, of which the first text may have more where the texts part.
-/

namespace LoopNest

/-! ## Expressions with corresponding variables -/

namespace Expr

/-- The expressions are the same one under numberings that agree on corresponding variables. -/
def Twin (K : Pairing) (x y : Expr) : Prop :=
  ∀ μ ν : Nat → Nat, (∀ i j, K.pairs i j → μ i = ν j) → x.relabel μ = y.relabel ν

namespace Twin

variable {K L : Pairing} {x y a b : Expr} {s s' : Span}

theorem mono (h : x.Twin K y) (hle : K.Le L) : x.Twin L y :=
  fun μ ν hagree => h μ ν fun i j hij => hagree i j (hle.pairs i j hij)

theorem lasting : Pairing.Lasting Twin := ⟨fun hle h => h.mono hle⟩

theorem var {v w : VarRef} (h : K.SameRef v w) : (var s v).Twin K (var s' w) := by
  intro μ ν hagree
  have hv : v.relabel μ = w.relabel ν := by
    rw [VarRef.relabel, VarRef.relabel, h.1, hagree _ _ h.2]
  rw [relabel, relabel, hv]

theorem literal (value : Literal) : (literal s value).Twin K (Expr.literal s' value) :=
  fun _ _ _ => rfl

theorem unaryBefore (op : UnaryOp) (h : x.Twin K y) :
    (unaryBefore s op x).Twin K (Expr.unaryBefore s' op y) := by
  intro μ ν hagree
  rw [relabel, relabel, h μ ν hagree]

theorem unaryBehind (op : UnaryOp) (h : x.Twin K y) :
    (unaryBehind s op x).Twin K (Expr.unaryBehind s' op y) := by
  intro μ ν hagree
  rw [relabel, relabel, h μ ν hagree]

theorem binary (op : BinaryOp) (h : x.Twin K y) (h' : a.Twin K b) :
    (binary s op x a).Twin K (Expr.binary s' op y b) := by
  intro μ ν hagree
  rw [relabel, relabel, h μ ν hagree, h' μ ν hagree]

theorem parentheses (h : x.Twin K y) : (parentheses s x).Twin K (Expr.parentheses s' y) := by
  intro μ ν hagree
  rw [relabel, relabel, h μ ν hagree]

theorem subscript (h : x.Twin K y) (h' : a.Twin K b) :
    (subscript s x a).Twin K (Expr.subscript s' y b) := by
  intro μ ν hagree
  rw [relabel, relabel, h μ ν hagree, h' μ ν hagree]

theorem map_relabel {xs ys : List Expr} (h : List.Forall₂ (Twin K) xs ys) {μ ν : Nat → Nat}
    (hagree : ∀ i j, K.pairs i j → μ i = ν j) : xs.map (relabel μ) = ys.map (relabel ν) := by
  induction h with
  | nil => rfl
  | cons first _ ih => rw [List.map_cons, List.map_cons, first μ ν hagree, ih]

theorem call (f : String) {xs ys : List Expr} (h : List.Forall₂ (Twin K) xs ys) :
    (call s f xs).Twin K (Expr.call s' f ys) := by
  intro μ ν hagree
  rw [relabel, relabel, relabelAll_eq, relabelAll_eq, map_relabel h hagree]

/-! ## Operands that are joined -/

theorem join (op : BinaryOp) (h : x.Twin K y) (h' : a.Twin K b) :
    (x.join op a).Twin K (y.join op b) := binary op h h'

variable {rest rest' : List (BinaryOp × Expr)}

/-- The same operator with operands that are twins. -/
def Operand (K : Pairing) (p q : BinaryOp × Expr) : Prop := p.1 = q.1 ∧ p.2.Twin K q.2

theorem joinLeft (h : x.Twin K y) (hrest : List.Forall₂ (Operand K) rest rest') :
    (x.joinLeft rest).Twin K (y.joinLeft rest') := by
  induction hrest generalizing x y with
  | nil => exact h
  | @cons p q _ _ hpq _ ih =>
    obtain ⟨op, z⟩ := p
    obtain ⟨op', z'⟩ := q
    obtain ⟨rfl, hz⟩ := hpq
    exact ih (h.join op hz)

theorem joinRight (h : x.Twin K y) (hrest : List.Forall₂ (Operand K) rest rest') :
    (x.joinRight rest).Twin K (y.joinRight rest') := by
  induction hrest generalizing x y with
  | nil => exact h
  | @cons p q _ _ hpq _ ih =>
    obtain ⟨op, z⟩ := p
    obtain ⟨op', z'⟩ := q
    obtain ⟨rfl, hz⟩ := hpq
    exact h.join op (ih hz)

theorem withOperatorsBefore {ops ops' : List (UnaryOp × Span)}
    (hops : List.Forall₂ (fun p q => p.1 = q.1) ops ops') (h : x.Twin K y) :
    (x.withOperatorsBefore ops).Twin K (y.withOperatorsBefore ops') := by
  induction hops with
  | nil => exact h
  | @cons p q _ _ hpq _ ih =>
    obtain ⟨op, s⟩ := p
    obtain ⟨op', s'⟩ := q
    obtain rfl : op = op' := hpq
    exact ih.unaryBefore op

/-- The same operator, or subscripts that are twins. -/
inductive Suffix (K : Pairing) : Expr.Suffix → Expr.Suffix → Prop
  | operator (op : UnaryOp) (stop stop' : Span) :
      Suffix K (.operator op stop) (.operator op stop')
  | subscript {i j : Expr} (stop stop' : Span) (h : i.Twin K j) :
      Suffix K (.subscript i stop) (.subscript j stop')

theorem Suffix.lasting : Pairing.Lasting Suffix := by
  refine ⟨fun hle h => ?_⟩
  cases h with
  | operator op stop stop' => exact .operator op stop stop'
  | subscript stop stop' h => exact .subscript stop stop' (h.mono hle)

theorem withSuffixes {ss ss' : List Expr.Suffix} (hss : List.Forall₂ (Suffix K) ss ss')
    (h : x.Twin K y) : (ss.foldl withSuffix x).Twin K (ss'.foldl withSuffix y) := by
  induction hss generalizing x y with
  | nil => exact h
  | cons first _ ih =>
    apply ih
    cases first with
    | operator op stop stop' => exact h.unaryBehind op
    | subscript stop stop' hi => exact h.subscript hi

end Twin

end Expr

namespace Grammar

open Parse

variable {F : Fork} {N : Naming} {K : Pairing} {r r' : Reader}

/-! ## Where no expression starts -/

theorem primary_fails (inner : Parse Expr) (h : r.current.kind.mayPart = true) :
    (primary inner).Fails r := by
  refine .get ?_
  dsimp only
  rcases Token.Kind.mayPart_cases h with hkind | hkind | hkind | hkind | hkind
  all_goals
    rw [hkind]
    exact .fail _ r

theorem unary_fails (inner : Parse Expr) (h : r.current.kind.mayPart = true) :
    (unary inner).Fails r := by
  have hnone : operatorBefore r = (.ok none, r) := by
    have hbefore : r.current.kind.unaryBefore? = none := by
      rcases Token.Kind.mayPart_cases h with hkind | hkind | hkind | hkind | hkind
      all_goals
        rw [hkind]
        rfl
    have hget : (get : Parse Reader) r = (.ok r, r) := rfl
    simp only [operatorBefore, bind_apply, hget, hbefore]
    rfl
  refine .behind (many_of_none hnone) (.bind (.bind ?_))
  exact primary_fails inner h

theorem operands_fails (inner : Parse Expr) (n : Nat) (h : r.current.kind.mayPart = true) :
    (operands inner n).Fails r := by
  induction n with
  | zero => exact unary_fails inner h
  | succ n ih => exact ih.bind

theorem expressionFor_fails (rounds : List Item) (h : r.current.kind.mayPart = true) :
    (expressionFor rounds).Fails r := by
  cases rounds with
  | nil => exact .fail _ r
  | cons _ rounds => exact .bind (operands_fails _ 6 h)

/-- No expression starts where texts may part. -/
theorem expression_fails (h : r.current.kind.mayPart = true) : expression.Fails r :=
  .get (expressionFor_fails r.remaining h)

theorem expressionFor_takes (rounds : List Item) (r : Reader) :
    (expressionFor rounds).Takes (expressionFor rounds) r := by
  induction rounds generalizing r with
  | nil => exact .fail _
  | cons _ rounds ih => exact assignment_agrees (fun r₁ _ => ih r₁) (Nat.le_refl _)

/-! ## Expressions -/

/-- The readers of what stands in parentheses and brackets. -/
structure Inside (F : Fork) (N : Naming) (inner inner' : Parse Expr) : Prop where
  alongside : ∀ K r r', inner.Alongside F N K Expr.Twin inner' r r'
  fails : ∀ {r : Reader}, r.current.kind.mayPart = true → inner.Fails r ∧ inner'.Fails r
  takes : ∀ r, inner.Takes inner r ∧ inner'.Takes inner' r

section

variable {inner inner' : Parse Expr} (h : Inside F N inner inner')
include h

theorem arguments_alongside (r r' : Reader) : (arguments inner).Alongside F N K
    (fun L => List.Forall₂ (Expr.Twin L)) (arguments inner') r r' := by
  have hsees (hkind : r.current.kind = r'.current.kind) :
      r.seesSymbol .rightParen = true ↔ r'.seesSymbol .rightParen = true := by
    rw [Reader.seesSymbol, Reader.seesSymbol, Reader.sees, Reader.sees, hkind]
  refine .get fun _ => .iteOrFails hsees (.pure .nil) ?_ (fun hends => .bind (h.fails hends).1)
    fun hends => .bind (h.fails hends).2
  refine .commaSeparated (.of_agrees fun r => ?_) (.of_agrees fun r => ?_) Expr.Twin.lasting
    h.alongside r r'
  · exact .separated (n := r.items.length) (fun r _ => (h.takes r).1) (Nat.le_refl _)
  · exact .separated (n := r.items.length) (fun r _ => (h.takes r).2) (Nat.le_refl _)

theorem named_alongside (name : String) (start start' : Span) (r r' : Reader) :
    (named inner name start).Alongside F N K Expr.Twin (named inner' name start') r r' := by
  refine (Alongside.accept (Fork.blind_of_mayPart rfl) r r').bind fun L b b' r₁ r₁' _ hb => ?_
  subst hb
  refine .ite (fun _ => ?_) fun _ => ?_
  · refine (arguments_alongside h r₁ r₁').bind fun L args args' r₂ r₂' _ hargs => ?_
    refine (Alongside.expect _ _ r₂ r₂').bind fun M _ _ _ _ hle _ => .get fun _ => .pure ?_
    exact .call name (hargs.imp fun _ _ hx => hx.mono hle)
  · exact (Alongside.resolve name start start' r₁ r₁').bind fun L v w _ _ _ hvw => .pure (.var hvw)

omit h in
theorem literal_alongside (value : Option Literal) (cause : Problem.Cause) (span span' : Span)
    (hkind : r.current.kind = r'.current.kind) (hgo : r.current.kind.mayMeet = false) :
    (literal value cause span).Alongside F N K Expr.Twin (literal value cause span') r r' := by
  cases value with
  | none => exact .fails_left (.fail _ r)
  | some v => exact (Alongside.advance hkind hgo).bind fun _ _ _ _ _ _ _ => .pure (.literal v)

theorem primary_alongside (r r' : Reader) :
    (primary inner).Alongside F N K Expr.Twin (primary inner') r r' := by
  refine .intro fun hr => ?_
  rcases hr.word_or_parting with hword | hparting
  · have hkind : r'.current.kind = r.current.kind := congrArg Word.kind hword.symm
    have hlexeme : r'.current.lexeme = r.current.lexeme := congrArg Word.lexeme hword.symm
    refine .get fun _ => ?_
    simp only [hkind, hlexeme]
    split
    · next heq => exact literal_alongside _ _ _ _ hkind.symm (by rw [heq]; rfl)
    · next heq => exact literal_alongside _ _ _ _ hkind.symm (by rw [heq]; rfl)
    · next heq => exact literal_alongside _ _ _ _ hkind.symm (by rw [heq]; rfl)
    · next heq =>
      refine (Alongside.advance hkind.symm (by rw [heq]; rfl)).bind fun L _ _ r₁ r₁' _ _ => ?_
      exact named_alongside h _ _ _ r₁ r₁'
    · next heq =>
      refine (Alongside.advance hkind.symm (by rw [heq]; rfl)).bind fun L _ _ r₁ r₁' _ _ => ?_
      refine (h.alongside L r₁ r₁').bind fun M x y r₂ r₂' _ hxy => ?_
      refine (Alongside.expect _ _ r₂ r₂').bind fun M' _ _ _ _ hle _ => .get fun _ => .pure ?_
      exact .parentheses (hxy.mono hle)
    · exact .fails_left (.fail _ r)
  · exact .fails_left (primary_fails inner hparting.mayPart.1)

theorem suffix_alongside (K : Pairing) (r r' : Reader) :
    (suffix inner).Alongside F N K (fun L => Option.Rel (Expr.Twin.Suffix L)) (suffix inner')
      r r' := by
  refine .get fun hr => ?_
  have hbehind : r.current.kind.unaryBehind? = r'.current.kind.unaryBehind? := by
    refine hr.kind_congr _ fun k hk => (?_ : _ = none)
    rcases Token.Kind.mayPart_cases hk with rfl | rfl | rfl | rfl | rfl <;> rfl
  simp only [← hbehind]
  split
  · next op hop =>
    have hkind := (UnaryOp.symbol_of_behind hop).2
    have hkind' := (UnaryOp.symbol_of_behind (hbehind ▸ hop)).2
    refine (Alongside.advance (hkind.trans hkind'.symm) (by rw [hkind]; rfl)).bind
      fun L _ _ _ _ _ _ => .get fun _ => .pure (.some (.operator op _ _))
  · refine (Alongside.accept (Fork.blind_of_mayPart rfl) r r').bind fun L b b' r₁ r₁' _ hb => ?_
    subst hb
    refine .ite (fun _ => ?_) fun _ => .pure .none
    refine (h.alongside L r₁ r₁').bind fun M i j r₂ r₂' _ hij => ?_
    refine (Alongside.expect _ _ r₂ r₂').bind fun M' _ _ _ _ hle _ => .get fun _ => .pure ?_
    exact .some (.subscript _ _ (hij.mono hle))

theorem suffixed_alongside (r r' : Reader) :
    (suffixed inner).Alongside F N K Expr.Twin (suffixed inner') r r' := by
  have hadvances : (suffix inner).Advances :=
    .of_agrees fun r => suffix_agrees (n := r.items.length) (fun r _ => (h.takes r).1) (Nat.le_refl _)
  have hadvances' : (suffix inner').Advances :=
    .of_agrees fun r => suffix_agrees (n := r.items.length) (fun r _ => (h.takes r).2) (Nat.le_refl _)
  refine (primary_alongside h r r').bind fun L x y r₁ r₁' _ hxy => ?_
  refine (Alongside.many hadvances hadvances' Expr.Twin.Suffix.lasting
    (suffix_alongside h) r₁ r₁').bind fun M ss ss' _ _ hle hss => .pure ?_
  exact .withSuffixes hss (hxy.mono hle)

omit h in
theorem operatorBefore_alongside (K : Pairing) (r r' : Reader) : operatorBefore.Alongside F N K
    (fun _ => Option.Rel fun p q => p.1 = q.1) operatorBefore r r' := by
  refine .get fun hr => ?_
  have hbefore : r.current.kind.unaryBefore? = r'.current.kind.unaryBefore? := by
    refine hr.kind_congr _ fun k hk => (?_ : _ = none)
    rcases Token.Kind.mayPart_cases hk with rfl | rfl | rfl | rfl | rfl <;> rfl
  simp only [← hbefore]
  split
  · next op hop =>
    have hkind := UnaryOp.symbol_of_before hop
    have hkind' := UnaryOp.symbol_of_before (hbefore ▸ hop)
    exact (Alongside.advance (hkind.trans hkind'.symm) (by rw [hkind]; rfl)).bind
      fun L _ _ _ _ _ _ => .pure (.some rfl)
  · exact .pure .none

theorem unary_alongside (r r' : Reader) :
    (unary inner).Alongside F N K Expr.Twin (unary inner') r r' := by
  refine (Alongside.many (.of_agrees operatorBefore_agrees) (.of_agrees operatorBefore_agrees)
    ⟨fun _ hq => hq⟩ operatorBefore_alongside r r').bind fun L ops ops' r₁ r₁' _ hops => ?_
  exact (suffixed_alongside h r₁ r₁').bind fun M x y _ _ _ hxy =>
    .pure (.withOperatorsBefore hops hxy)

omit h in
theorem operatorAndOperand_alongside (precedence : Nat) {operand operand' : Parse Expr}
    (h : ∀ K r r', operand.Alongside F N K Expr.Twin operand' r r') (K : Pairing) (r r' : Reader) :
    (operatorAndOperand precedence operand).Alongside F N K
      (fun L => Option.Rel (Expr.Twin.Operand L)) (operatorAndOperand precedence operand') r r' := by
  refine .get fun hr => ?_
  have hbinary : r.current.kind.binaryAt? precedence = r'.current.kind.binaryAt? precedence := by
    refine hr.kind_congr _ fun k hk => (?_ : _ = none)
    rcases Token.Kind.mayPart_cases hk with rfl | rfl | rfl | rfl | rfl <;> rfl
  simp only [← hbinary]
  split
  · next op hop =>
    have hsymbol {k : Token.Kind} (hk : k.binaryAt? precedence = some op) :=
      BinaryOp.symbol_of_binary (Option.filter_eq_some_iff.mp hk).1
    have hkind := hsymbol hop
    have hkind' := hsymbol (hbinary ▸ hop)
    refine (Alongside.advance (hkind.trans hkind'.symm) (by rw [hkind]; rfl)).bind
      fun L _ _ r₁ r₁' _ _ => ?_
    exact (h L r₁ r₁').bind fun M x y _ _ _ hxy => .pure (.some ⟨rfl, hxy⟩)
  · exact .pure .none

omit h in
/-- Operators with operands behind a first one. -/
theorem operatorsAndOperands_alongside (precedence : Nat) {operand operand' : Parse Expr}
    (h : ∀ K r r', operand.Alongside F N K Expr.Twin operand' r r')
    (htakes : ∀ r, operand.Takes operand r ∧ operand'.Takes operand' r) (K : Pairing)
    (r r' : Reader) :
    (many (operatorAndOperand precedence operand)).Alongside F N K
      (fun L => List.Forall₂ (Expr.Twin.Operand L))
      (many (operatorAndOperand precedence operand')) r r' := by
  have hlasting : Pairing.Lasting Expr.Twin.Operand :=
    ⟨fun hle hq => ⟨hq.1, hq.2.mono hle⟩⟩
  refine .many (.of_agrees fun r => ?_) (.of_agrees fun r => ?_) hlasting
    (operatorAndOperand_alongside precedence h) r r'
  · exact operatorAndOperand_agrees (n := r.items.length) _ (fun r _ => (htakes r).1) (Nat.le_refl _)
  · exact operatorAndOperand_agrees (n := r.items.length) _ (fun r _ => (htakes r).2) (Nat.le_refl _)

theorem operands_takes (n : Nat) (r : Reader) :
    (operands inner n).Takes (operands inner n) r ∧
      (operands inner' n).Takes (operands inner' n) r :=
  ⟨operands_agrees (n := r.items.length) (fun r _ => (h.takes r).1) n (Nat.le_refl _),
    operands_agrees (n := r.items.length) (fun r _ => (h.takes r).2) n (Nat.le_refl _)⟩

theorem operands_alongside (n : Nat) (K : Pairing) (r r' : Reader) :
    (operands inner n).Alongside F N K Expr.Twin (operands inner' n) r r' := by
  induction n generalizing K r r' with
  | zero => exact unary_alongside h r r'
  | succ n ih =>
    refine (ih K r r').bind fun L x y r₁ r₁' _ hxy => ?_
    refine (operatorsAndOperands_alongside _ ih (operands_takes h n) L r₁ r₁').bind
      fun M rest rest' _ _ hle hrest => .pure ?_
    exact .joinLeft (hxy.mono hle) hrest

theorem assignment_alongside (r r' : Reader) :
    (assignment inner).Alongside F N K Expr.Twin (assignment inner') r r' := by
  refine (operands_alongside h 6 K r r').bind fun L x y r₁ r₁' _ hxy => ?_
  refine (operatorsAndOperands_alongside _ (operands_alongside h 6) (operands_takes h 6) L r₁
    r₁').bind fun M rest rest' _ _ hle hrest => .pure ?_
  exact .joinRight (hxy.mono hle) hrest

end

theorem expressionFor_inside (rounds rounds' : List Item) :
    Inside F N (expressionFor rounds) (expressionFor rounds') := by
  refine ⟨?_, fun h => ⟨expressionFor_fails _ h, expressionFor_fails _ h⟩,
    fun r => ⟨expressionFor_takes _ r, expressionFor_takes _ r⟩⟩
  induction rounds generalizing rounds' with
  | nil => exact fun K r r' => .fails_left (.fail _ r)
  | cons _ rounds ih =>
    cases rounds' with
    | nil => exact fun K r r' => .fails_right (.fail _ r')
    | cons _ rounds' =>
      have hinside : Inside F N (expressionFor rounds) (expressionFor rounds') :=
        ⟨ih rounds', fun h => ⟨expressionFor_fails _ h, expressionFor_fails _ h⟩,
          fun r => ⟨expressionFor_takes _ r, expressionFor_takes _ r⟩⟩
      exact fun K r r' => assignment_alongside hinside r r'

/-- Both texts have the same expression, or none in one of them. -/
theorem expression_alongside (K : Pairing) (r r' : Reader) :
    expression.Alongside F N K Expr.Twin expression r r' :=
  .get fun _ => (expressionFor_inside r.remaining r'.remaining).alongside K r r'

theorem expression_inside : Inside F N expression expression :=
  ⟨expression_alongside, fun h => ⟨expression_fails h, expression_fails h⟩,
    fun r => ⟨expression_agrees r, expression_agrees r⟩⟩

end Grammar

/-! ## Attributes -/

/-- The attributes are the same but for spans, with corresponding variables. -/
def Attribute.Twin (K : Pairing) (a b : Attribute) : Prop :=
  a.name = b.name ∧ List.Forall₂ (Expr.Twin K) a.args b.args

theorem Attribute.Twin.lasting : Pairing.Lasting Attribute.Twin :=
  ⟨fun hle h => ⟨h.1, h.2.imp fun _ _ hx => hx.mono hle⟩⟩

namespace Grammar

open Parse

variable {F : Fork} {N : Naming} {K : Pairing} {r r' : Reader}

theorem attributeArguments_alongside (r r' : Reader) : attributeArguments.Alongside F N K
    (fun L => List.Forall₂ (Expr.Twin L)) attributeArguments r r' := by
  refine (Alongside.accept (Fork.blind_of_mayPart rfl) r r').bind fun L b b' r₁ r₁' _ hb => ?_
  subst hb
  refine .ite (fun _ => ?_) fun _ => .pure .nil
  refine (arguments_alongside expression_inside r₁ r₁').bind fun M args args' r₂ r₂' _ hargs => ?_
  refine (Alongside.expect _ _ r₂ r₂').bind fun M' _ _ _ _ hle _ => .pure ?_
  exact hargs.imp fun _ _ hx => hx.mono hle

theorem oneAttribute_alongside
    (hat : r.current.kind = .symbol .atSign ↔ r'.current.kind = .symbol .atSign) :
    oneAttribute.Alongside F N K (fun L => Option.Rel (Attribute.Twin L)) oneAttribute r r' := by
  refine .get fun _ => (Alongside.acceptKind_of_iff hat rfl).bind fun L b b' r₁ r₁' _ hb => ?_
  subst hb
  refine .ite (fun _ => ?_) fun _ => .pure .none
  refine (Alongside.name _ r₁ r₁').bind fun M n n' r₂ r₂' _ hn => ?_
  subst hn
  refine (attributeArguments_alongside r₂ r₂').bind fun M' args args' _ _ _ hargs => ?_
  exact .get fun _ => .pure (.some ⟨rfl, hargs⟩)

/-! ## Rows of attributes -/

/-- The attributes at a reader, and the reader behind them. -/
inductive Marks : Reader → List Attribute → Reader → Prop
  | stop {r r₁ : Reader} (h : oneAttribute r = (.ok none, r₁)) : Marks r [] r₁
  | next {r r₁ r₂ : Reader} {a : Attribute} {marks : List Attribute}
      (h : oneAttribute r = (.ok (some a), r₁)) (rest : Marks r₁ marks r₂) : Marks r (a :: marks) r₂

theorem oneAttribute_of_ne (h : r.current.kind ≠ .symbol .atSign) :
    oneAttribute r = (.ok none, r) := by
  have hstart : currentSpan r = (.ok r.current.span, r) := rfl
  have haccept : accept .atSign r = (.ok false, r) := acceptKind_of_ne h
  rw [oneAttribute, bind_apply, hstart]
  dsimp only
  rw [bind_apply, haccept]
  rfl

/-- There is an attribute if its first token is there. -/
theorem kind_of_oneAttribute {r₁ : Reader} (hrun : oneAttribute r = (.ok none, r₁)) :
    r.current.kind ≠ .symbol .atSign := by
  intro h
  obtain ⟨_, r₂, hstart, hrun⟩ := bind_eq_ok hrun
  obtain ⟨-, rfl⟩ := Prod.mk.inj hstart
  obtain ⟨accepted, r₃, haccept, hrun⟩ := bind_eq_ok hrun
  have hsees : r.sees (.symbol .atSign) = true := beq_iff_eq.mpr h
  have haccept : (if r.sees (.symbol .atSign) then do advance; Pure.pure true
      else Pure.pure false : Parse Bool) r = (.ok accepted, r₃) := haccept
  rw [if_pos hsees] at haccept
  obtain ⟨_, _, -, haccept⟩ := bind_eq_ok haccept
  obtain ⟨hok, rfl⟩ := Prod.mk.inj haccept
  obtain rfl := Except.ok.inj hok
  obtain ⟨_, _, -, hrun⟩ := bind_eq_ok hrun
  obtain ⟨_, _, -, hrun⟩ := bind_eq_ok hrun
  obtain ⟨_, _, -, hrun⟩ := bind_eq_ok hrun
  cases hrun

/-- Where no attribute starts there are none. -/
theorem Marks.eq_nil {marks : List Attribute} {r₁ : Reader} (h : Marks r marks r₁)
    (hkind : r.current.kind ≠ .symbol .atSign) : marks = [] ∧ r₁ = r := by
  have hnone := oneAttribute_of_ne hkind
  cases h with
  | stop h =>
    rw [hnone] at h
    exact ⟨rfl, (Prod.mk.inj h).2.symm⟩
  | next h _ =>
    rw [hnone] at h
    cases h

theorem marks_of_attributes {marks : List Attribute} {r₁ : Reader} (h : r.Closed)
    (hrun : attributes r = (.ok marks, r₁)) : Marks r marks r₁ := by
  have hrepeats := many_repeats oneAttribute_agrees h
  change many oneAttribute r = _ at hrun
  rw [hrun] at hrepeats
  dsimp only at hrepeats
  clear hrun h
  generalize hresult : Except.ok marks = result at hrepeats
  induction hrepeats generalizing marks with
  | stop hnone =>
    obtain rfl := Except.ok.inj hresult
    exact .stop hnone
  | fail _ => cases hresult
  | @round _ _ _ a result hsome _ _ _ ih =>
    cases result with
    | error _ => cases hresult
    | ok rest =>
      obtain rfl := Except.ok.inj hresult
      exact .next hsome (ih rfl)

/-- The texts have the same attributes up to where those of the second one end. The first text may
have more of them there, but only if the texts part. -/
theorem Marks.alongside {marks marks' : List Attribute} {r₁ r₁' : Reader} (h : Marks r marks r₁)
    (h' : Marks r' marks' r₁') (hr : r.Alongside F N K r') :
    ∃ L front more r₀, K.Le L ∧ marks = front ++ more ∧
      List.Forall₂ (Attribute.Twin L) front marks' ∧ Marks r₀ more r₁ ∧ r₀.Alongside F N L r₁' ∧
        r₁'.current.kind ≠ .symbol .atSign := by
  induction h' generalizing K r marks with
  | @stop r' r₁' hnone =>
    have hkind := kind_of_oneAttribute hnone
    rw [oneAttribute_of_ne hkind] at hnone
    obtain ⟨-, rfl⟩ := Prod.mk.inj hnone
    exact ⟨K, [], marks, r, .refl K, rfl, .nil, h, hr, hkind⟩
  | @next r' r₂' r₁' b marks' hsome _ ih =>
    have hright : r'.current.kind = .symbol .atSign := by
      by_contra hne
      rw [oneAttribute_of_ne hne] at hsome
      cases hsome
    rcases hr.word_or_parting with hword | hparting
    · have hleft : r.current.kind = .symbol .atSign := (congrArg Word.kind hword).trans hright
      have hone := oneAttribute_alongside (F := F) (N := N) (K := K) (iff_of_true hleft hright)
      cases h with
      | stop hnone => exact absurd hleft (kind_of_oneAttribute hnone)
      | @next _ r₂ _ a marks hsome' hrest =>
        obtain ⟨L, hle, hr₂, hab⟩ := hone hr _ _ r₂ r₂' hsome' hsome
        obtain ⟨M, front, more, r₀, hle', rfl, hfront, hmore, hr₀, hkind⟩ := ih hrest hr₂
        cases hab with
        | some hab =>
          exact ⟨M, a :: front, more, r₀, hle.trans hle', rfl,
            .cons (Attribute.Twin.lasting.mono hle' hab) hfront, hmore, hr₀, hkind⟩
    · exact absurd hright hparting.right_ne

/-- Where the same token is next behind the attributes of both texts, they have the same ones. -/
theorem attributes_alongside {marks marks' : List Attribute} {r₁ r₁' : Reader}
    (hr : r.Alongside F N K r') (hrun : attributes r = (.ok marks, r₁))
    (hrun' : attributes r' = (.ok marks', r₁')) :
    ∃ L, K.Le L ∧
      ((List.Forall₂ (Attribute.Twin L) marks marks' ∧ r₁.Alongside F N L r₁' ∧
        Reader.Ahead F r₁ r₁') ∨
      ∃ front more r₀, marks = front ++ more ∧ List.Forall₂ (Attribute.Twin L) front marks' ∧
        Marks r₀ more r₁ ∧ r₀.Alongside F N L r₁' ∧ Reader.AtFork F r₀ r₁') := by
  have hmarks := marks_of_attributes hr.left.sound.closed hrun
  have hmarks' := marks_of_attributes hr.right.sound.closed hrun'
  obtain ⟨L, front, more, r₀, hle, rfl, hfront, hmore, hr₀, hkind⟩ := hmarks.alongside hmarks' hr
  refine ⟨L, hle, ?_⟩
  rcases hr₀.ahead_or_atFork with hahead | hfork
  · have hleft : r₀.current.kind ≠ .symbol .atSign :=
      fun h => hkind ((congrArg Word.kind hahead.word_eq).symm.trans h)
    obtain ⟨rfl, rfl⟩ := hmore.eq_nil hleft
    rw [List.append_nil]
    exact .inl ⟨hfront, hr₀, hahead⟩
  · exact .inr ⟨front, more, r₀, rfl, hfront, hmore, hr₀, hfork⟩

end Grammar

end LoopNest
