import LoopNest.Grammar.Expr
import LoopNest.Proofs.Expr.Relabel

/-!
# Derivations of expressions

The grammar of expressions as a relation between tokens and trees, without a reader.

* `Grammar.Derives`: the tokens are an expression of a level, with this tree.
* `Grammar.Derives.exists_operands`, `Grammar.Derives.exists_suffixes`: a derivation taken apart as
  the readers put it together, in rows.
* `Grammar.Continues`: the tokens that an expression may go on with;
  `Grammar.Derives.exists_longer` shows that it may.
-/

namespace LoopNest

theorem BinaryOp.precedence_le (op : BinaryOp) : op.precedence ≤ 7 := by cases op <;> decide

/-- The whole numbers in a tree are not too large for the reader. -/
def Expr.IntegersFit (x : Expr) : Prop :=
  ∀ s m, literal s (.int m) ∈ x.nodes → m ≤ Grammar.maxInteger

theorem BinaryOp.one_le_precedence (op : BinaryOp) : 1 ≤ op.precedence := by cases op <;> decide

namespace Grammar

open LoopNest.Expr

/-! ## The grammar -/

/-- The literal that a token stands for. A whole number may be as large as it likes. -/
def literalOf? (t : Token) : Option Literal :=
  match t.kind with
  | .integer => some (.int (Text.digitsValue t.lexeme.toList))
  | .float => floatLiteral t.lexeme
  | .keyword (.bool value) => some (.bool value)
  | _ => none

/-- The tokens of several arguments with a comma between each two of them. -/
inductive Commas : List (List Token) → List Token → Prop
  | nil : Commas [] []
  | single (ts : List Token) : Commas [ts] ts
  | cons {ts us vs : List Token} {tss : List (List Token)} {comma : Token}
      (hcomma : comma.kind = .symbol .comma) (h : Commas (us :: tss) vs) :
      Commas (ts :: us :: tss) (ts ++ comma :: vs)

/-- The tokens are an expression that binds at least as tightly as the level, with that tree.

An operator between operands has its precedence as its level: 1 for assignments, which associate to
the right, up to 7, all of which associate to the left. Operators in front of an operand have level
8, those behind it and subscripts level 9, and all others 10. Places and the numbers of variables
are not the grammar's. -/
inductive Derives : Nat → List Token → Expr → Prop
  | tighter {level : Nat} {ts : List Token} {x : Expr} (h : Derives (level + 1) ts x) :
      Derives level ts x
  | assignment {ts us : List Token} {t : Token} {s : Span} {op : BinaryOp} {l r : Expr}
      (hop : op.precedence = 1) (ht : t.kind = .symbol op.symbol) (hl : Derives 2 ts l)
      (hr : Derives 1 us r) : Derives 1 (ts ++ t :: us) (binary s op l r)
  | binary {ts us : List Token} {t : Token} {s : Span} {op : BinaryOp} {l r : Expr}
      (hop : op.precedence ≠ 1) (ht : t.kind = .symbol op.symbol) (hl : Derives op.precedence ts l)
      (hr : Derives (op.precedence + 1) us r) :
      Derives op.precedence (ts ++ t :: us) (binary s op l r)
  | before {ts : List Token} {t : Token} {s : Span} {op : UnaryOp} {x : Expr}
      (ht : t.kind = .symbol op.symbol) (h : Derives 8 ts x) :
      Derives 8 (t :: ts) (unaryBefore s op x)
  | behind {ts : List Token} {t : Token} {s : Span} {op : UnaryOp} {x : Expr}
      (h : Derives 9 ts x) (hop : op = .increment ∨ op = .decrement)
      (ht : t.kind = .symbol op.symbol) :
      Derives 9 (ts ++ [t]) (unaryBehind s op x)
  | subscript {ts us : List Token} {t u : Token} {s : Span} {a i : Expr}
      (ha : Derives 9 ts a) (ht : t.kind = .symbol .leftBracket) (hi : Derives 1 us i)
      (hu : u.kind = .symbol .rightBracket) :
      Derives 9 (ts ++ t :: (us ++ [u])) (subscript s a i)
  | name {t : Token} {s : Span} {id : Nat} (ht : t.kind = .identifier) :
      Derives 10 [t] (var s ⟨id, t.lexeme⟩)
  | literal {t : Token} {s : Span} {value : Literal} (ht : literalOf? t = some value) :
      Derives 10 [t] (Expr.literal s value)
  | parentheses {ts : List Token} {t u : Token} {s : Span} {x : Expr}
      (ht : t.kind = .symbol .leftParen) (h : Derives 1 ts x)
      (hu : u.kind = .symbol .rightParen) : Derives 10 (t :: (ts ++ [u])) (parentheses s x)
  | call {f t u : Token} {s : Span} {args : List (List Token × Expr)} {ts : List Token}
      (hf : f.kind = .identifier) (ht : t.kind = .symbol .leftParen)
      (hts : Commas (args.map Prod.fst) ts) (hargs : ∀ a ∈ args, Derives 1 a.1 a.2)
      (hu : u.kind = .symbol .rightParen) :
      Derives 10 (f :: t :: (ts ++ [u])) (call s f.lexeme (args.map Prod.snd))

namespace Derives

variable {level lower : Nat} {ts us : List Token} {x : Expr}

theorem mono (h : Derives level ts x) (hle : lower ≤ level) : Derives lower ts x := by
  induction hle with
  | refl => exact h
  | step _ ih => exact ih h.tighter

/-- The first token of an expression. -/
theorem exists_cons (h : Derives level ts x) : ∃ t us, ts = t :: us ∧
    (9 ≤ level → t.kind.unaryBefore? = none) ∧ t.kind ≠ .symbol .rightParen := by
  induction h with
  | tighter _ ih =>
    obtain ⟨t, us, hts, hplain, hparen⟩ := ih
    exact ⟨t, us, hts, fun h => hplain (by omega), hparen⟩
  | assignment _ _ _ _ ihl _ =>
    obtain ⟨t, us, rfl, _, hparen⟩ := ihl
    exact ⟨t, _, rfl, fun h => by omega, hparen⟩
  | @binary _ _ _ _ op _ _ _ _ _ _ ihl _ =>
    obtain ⟨t, us, rfl, hplain, hparen⟩ := ihl
    exact ⟨t, _, rfl, hplain, hparen⟩
  | @before _ t _ op _ ht _ _ =>
    refine ⟨t, _, rfl, fun h => by omega, ?_⟩
    rw [ht]
    cases op <;> decide
  | behind _ _ _ ih =>
    obtain ⟨t, us, rfl, hplain, hparen⟩ := ih
    exact ⟨t, _, rfl, hplain, hparen⟩
  | subscript _ _ _ _ iha _ =>
    obtain ⟨t, us, rfl, hplain, hparen⟩ := iha
    exact ⟨t, _, rfl, hplain, hparen⟩
  | @name t _ _ ht => exact ⟨t, [], rfl, fun _ => by rw [ht]; rfl, by simp [ht]⟩
  | @literal t _ _ ht =>
    refine ⟨t, [], rfl, fun _ => ?_, fun hparen => ?_⟩
    · unfold literalOf? at ht
      split at ht <;> simp_all [Token.Kind.unaryBefore?]
    · simp [literalOf?, hparen] at ht
  | @parentheses _ t _ _ _ ht _ _ _ => exact ⟨t, _, rfl, fun _ => by rw [ht]; rfl, by simp [ht]⟩
  | @call f _ _ _ _ _ hf _ _ _ _ _ => exact ⟨f, _, rfl, fun _ => by rw [hf]; rfl, by simp [hf]⟩

theorem ne_nil (h : Derives level ts x) : ts ≠ [] := by
  obtain ⟨t, us, rfl, _⟩ := h.exists_cons
  exact List.cons_ne_nil t us

end Derives

/-! ## Rows -/

/-- The tokens are those of the items, one item behind the other. -/
inductive Rows {α : Type} (S : List Token → α → Prop) : List Token → List α → Prop
  | nil : Rows S [] []
  | cons {ts us : List Token} {a : α} {as : List α} (h : S ts a) (hs : Rows S us as) :
      Rows S (ts ++ us) (a :: as)

namespace Rows

variable {α : Type} {S S' : List Token → α → Prop} {ts us : List Token} {as bs : List α}

theorem single {a : α} (h : S ts a) : Rows S ts [a] := by
  have hrow := Rows.cons h .nil
  rwa [List.append_nil] at hrow

theorem append (h : Rows S ts as) (h' : Rows S us bs) : Rows S (ts ++ us) (as ++ bs) := by
  induction h with
  | nil => exact h'
  | cons h _ ih =>
    rw [List.append_assoc]
    exact .cons h ih

/-- The tokens of each item are among those of all of them. -/
theorem within (h : Rows S ts as) : Rows (fun us a => S us a ∧ us.Sublist ts) ts as := by
  have hwithin {vs : List Token} (hvs : ts.Sublist vs) :
      Rows (fun us a => S us a ∧ us.Sublist vs) ts as := by
    induction h with
    | nil => exact .nil
    | cons h _ ih =>
      refine .cons ⟨h, (List.sublist_append_left _ _).trans hvs⟩ (ih ?_)
      exact (List.sublist_append_right _ _).trans hvs
  exact hwithin (.refl ts)

theorem mono (h : Rows S ts as) (himp : ∀ us a, S us a → S' us a) : Rows S' ts as := by
  induction h with
  | nil => exact .nil
  | cons h _ ih => exact .cons (himp _ _ h) ih

end Rows

/-- The tokens of several items are those of the first one and a row of commas with the others. -/
theorem Commas.exists_rows {α : Type} {S : List Token → α → Prop} {first : List Token × α}
    {items : List (List Token × α)} {ts : List Token}
    (h : Commas ((first :: items).map Prod.fst) ts) (hitems : ∀ i ∈ items, S i.1 i.2) :
    ∃ vs, ts = first.1 ++ vs ∧
      Rows (fun us i => ∃ t, us = t :: i.1 ∧ t.kind = .symbol .comma ∧ S i.1 i.2) vs items := by
  induction items generalizing first ts with
  | nil =>
    cases h with
    | single => exact ⟨[], by simp, .nil⟩
  | cons i items ih =>
    cases h with
    | @cons _ _ _ _ comma hcomma h =>
      obtain ⟨hi, hitems⟩ := List.forall_mem_cons.mp hitems
      obtain ⟨vs, rfl, hrows⟩ := ih h hitems
      exact ⟨_, rfl, .cons ⟨comma, rfl, hcomma, hi⟩ hrows⟩

/-- An item and a row of commas with others are several items with commas between them. -/
theorem Commas.of_rows {α : Type} {S : List Token → α → Prop} {ts us : List Token} {a : α}
    {as : List α} (ha : S ts a)
    (has : Rows (fun vs b => ∃ t ws, vs = t :: ws ∧ t.kind = .symbol .comma ∧ S ws b) us as) :
    ∃ items : List (List Token × α), items ≠ [] ∧ a :: as = items.map Prod.snd ∧
      Commas (items.map Prod.fst) (ts ++ us) ∧ ∀ i ∈ items, S i.1 i.2 := by
  induction has generalizing a ts with
  | nil =>
    refine ⟨[(ts, a)], List.cons_ne_nil _ _, rfl, ?_, List.forall_mem_singleton.mpr ha⟩
    rw [List.append_nil]
    exact .single ts
  | cons hb _ ih =>
    obtain ⟨t, vs, rfl, ht, hb⟩ := hb
    obtain ⟨items, hne, has, hcommas, hitems⟩ := ih hb
    obtain ⟨i, items, rfl⟩ := List.exists_cons_of_ne_nil hne
    refine ⟨(ts, a) :: i :: items, List.cons_ne_nil _ _, by rw [has]; rfl, .cons ht hcommas, ?_⟩
    exact List.forall_mem_cons.mpr ⟨ha, hitems⟩

/-! ## Operands -/

/-- The tokens are an operator of the level and its right operand. -/
def DerivesOperand (level : Nat) (ts : List Token) (next : BinaryOp × Expr) : Prop :=
  ∃ t us, ts = t :: us ∧ next.1.precedence = level ∧ t.kind = .symbol next.1.symbol ∧
    Derives (level + 1) us next.2

variable {level : Nat} {ts us : List Token} {x : Expr} {rest : List (BinaryOp × Expr)}

/-- The operands of a level whose operators associate to the left. -/
theorem Derives.exists_operands (h : Derives level ts x) (hlow : 2 ≤ level) (hhigh : level ≤ 7) :
    ∃ us vs first rest, ts = us ++ vs ∧ Derives (level + 1) us first ∧
      Rows (DerivesOperand level) vs rest ∧ x.shape = (first.joinLeft rest).shape := by
  induction h with
  | tighter h _ => exact ⟨_, [], _, [], by simp, h, .nil, rfl⟩
  | @binary _ us t s op l r hop ht _ hr ihl _ =>
    obtain ⟨us₁, vs, first, rest, rfl, hfirst, hrest, hshape⟩ := ihl hlow hhigh
    refine ⟨us₁, vs ++ t :: us, first, rest ++ [(op, r)], by simp, hfirst, ?_, ?_⟩
    · exact hrest.append (.single ⟨t, us, rfl, rfl, ht, hr⟩)
    · rw [Expr.joinLeft, List.foldl_append]
      exact congrArg (fun y => Expr.binary Span.none op y r.shape) hshape
  | assignment => omega
  | before => omega
  | behind => omega
  | subscript => omega
  | name => omega
  | literal => omega
  | parentheses => omega
  | call => omega

/-- The operands of assignments, which associate to the right. -/
theorem Derives.exists_assignments (h : Derives 1 ts x) :
    ∃ us vs first rest, ts = us ++ vs ∧ Derives 2 us first ∧
      Rows (DerivesOperand 1) vs rest ∧ x.shape = (first.joinRight rest).shape := by
  generalize hlevel : 1 = level at h
  induction h with
  | tighter h _ =>
    subst hlevel
    exact ⟨_, [], _, [], by simp, h, .nil, rfl⟩
  | @assignment ts _ t s op l r hop ht hl _ _ ihr =>
    obtain ⟨us, vs, first, rest, rfl, hfirst, hrest, hshape⟩ := ihr rfl
    refine ⟨ts, (t :: us) ++ vs, l, (op, first) :: rest, by simp, hl, ?_, ?_⟩
    · exact .cons ⟨t, us, rfl, hop, ht, hfirst⟩ hrest
    · exact congrArg (Expr.binary Span.none op l.shape) hshape
  | binary hop => exact absurd hlevel.symm hop
  | before => omega
  | behind => omega
  | subscript => omega
  | name => omega
  | literal => omega
  | parentheses => omega
  | call => omega

/-! ## Operators in front and suffixes -/

/-- The token is an operator in front of an operand. -/
def IsOperatorBefore (ts : List Token) (op : UnaryOp × Span) : Prop :=
  ∃ t, ts = [t] ∧ t.kind = .symbol op.1.symbol

theorem Derives.exists_operatorsBefore (h : Derives 8 ts x) :
    ∃ us vs ops y, ts = us ++ vs ∧ Rows IsOperatorBefore us ops ∧ Derives 9 vs y ∧
      x.shape = (y.withOperatorsBefore ops).shape := by
  generalize hlevel : 8 = level at h
  induction h with
  | tighter h _ =>
    subst hlevel
    exact ⟨[], _, [], _, rfl, .nil, h, rfl⟩
  | @before _ t s op _ ht _ ih =>
    obtain ⟨us, vs, ops, y, rfl, hops, hy, hshape⟩ := ih rfl
    refine ⟨t :: us, vs, (op, s) :: ops, y, rfl, .cons ⟨t, rfl, ht⟩ hops, hy, ?_⟩
    exact congrArg (Expr.unaryBefore Span.none op) hshape
  | @binary _ _ _ _ op =>
    have hle := op.precedence_le
    omega
  | assignment => omega
  | behind => omega
  | subscript => omega
  | name => omega
  | literal => omega
  | parentheses => omega
  | call => omega

/-- The tokens are an operator or a subscript behind an operand. -/
inductive DerivesSuffix : List Token → Expr.Suffix → Prop
  | operator {t : Token} {stop : Span} {op : UnaryOp} (hop : op = .increment ∨ op = .decrement)
      (ht : t.kind = .symbol op.symbol) :
      DerivesSuffix [t] (.operator op stop)
  | subscript {us : List Token} {t u : Token} {stop : Span} {i : Expr}
      (ht : t.kind = .symbol .leftBracket) (hi : Derives 1 us i)
      (hu : u.kind = .symbol .rightBracket) :
      DerivesSuffix (t :: (us ++ [u])) (.subscript i stop)

theorem Derives.exists_suffixes (h : Derives 9 ts x) :
    ∃ us vs p ss, ts = us ++ vs ∧ Derives 10 us p ∧ Rows DerivesSuffix vs ss ∧
      x.shape = (ss.foldl Expr.withSuffix p).shape := by
  generalize hlevel : 9 = level at h
  induction h with
  | tighter h _ =>
    subst hlevel
    exact ⟨_, [], _, [], by simp, h, .nil, rfl⟩
  | @behind _ t s op _ _ hop ht ih =>
    obtain ⟨us, vs, p, ss, rfl, hp, hss, hshape⟩ := ih rfl
    refine ⟨us, vs ++ [t], p, ss ++ [.operator op s], by simp, hp, ?_, ?_⟩
    · exact hss.append (.single (.operator hop ht))
    · rw [List.foldl_append]
      exact congrArg (Expr.unaryBehind Span.none op) hshape
  | @subscript _ ws t u s _ i _ ht hi hu ih _ =>
    obtain ⟨us, vs, p, ss, rfl, hp, hss, hshape⟩ := ih rfl
    refine ⟨us, vs ++ t :: (ws ++ [u]), p, ss ++ [.subscript i s], by simp, hp, ?_, ?_⟩
    · exact hss.append (.single (.subscript ht hi hu))
    · rw [List.foldl_append]
      exact congrArg (fun y => Expr.subscript Span.none y i.shape) hshape
  | @binary _ _ _ _ op =>
    have hle := op.precedence_le
    omega
  | assignment => omega
  | before => omega
  | name => omega
  | literal => omega
  | parentheses => omega
  | call => omega

/-! ## Whole numbers -/

/-- The whole numbers among the tokens are not too large for the reader. -/
def IntegersFit (ts : List Token) : Prop :=
  ∀ t ∈ ts, t.kind = .integer → Text.digitsValue t.lexeme.toList ≤ maxInteger

namespace IntegersFit

theorem nil : IntegersFit [] := fun _ ht => absurd ht List.not_mem_nil

theorem append_iff {ts us : List Token} :
    IntegersFit (ts ++ us) ↔ IntegersFit ts ∧ IntegersFit us := List.forall_mem_append

theorem mono {ts us : List Token} (h : IntegersFit ts) (hsub : us ⊆ ts) : IntegersFit us :=
  fun t ht => h t (hsub ht)

/-- Only whole numbers matter. -/
theorem cons {t : Token} {ts : List Token} (ht : t.kind ≠ .integer) (h : IntegersFit ts) :
    IntegersFit (t :: ts) :=
  List.forall_mem_cons.mpr ⟨fun hkind => absurd hkind ht, h⟩

theorem snoc {t : Token} {ts : List Token} (h : IntegersFit ts) (ht : t.kind ≠ .integer) :
    IntegersFit (ts ++ [t]) := append_iff.mpr ⟨h, .cons ht .nil⟩

end IntegersFit

/-- The tokens of each item are among those of all of them. -/
theorem Commas.sublist {us ts : List Token} {tss : List (List Token)} (h : Commas tss ts)
    (hus : us ∈ tss) : us.Sublist ts := by
  induction h with
  | nil => cases hus
  | single ts =>
    exact List.mem_singleton.mp hus ▸ .refl ts
  | cons _ _ ih =>
    rcases List.mem_cons.mp hus with rfl | hus
    · exact List.sublist_append_left us _
    · exact ((ih hus).cons _).trans (List.sublist_append_right _ _)

theorem Commas.integersFit {ts : List Token} {tss : List (List Token)} (h : Commas tss ts)
    (hall : ∀ us ∈ tss, IntegersFit us) : IntegersFit ts := by
  induction h with
  | nil => exact .nil
  | single ts => exact hall ts List.mem_cons_self
  | cons hcomma _ ih =>
    obtain ⟨hts, hrest⟩ := List.forall_mem_cons.mp hall
    exact IntegersFit.append_iff.mpr ⟨hts, .cons (by simp [hcomma]) (ih hrest)⟩

theorem Rows.integersFit {α : Type} {S : List Token → α → Prop} {ts : List Token} {as : List α}
    (h : Rows S ts as) (hS : ∀ us a, S us a → IntegersFit us) : IntegersFit ts := by
  induction h with
  | nil => exact .nil
  | cons h _ ih => exact IntegersFit.append_iff.mpr ⟨hS _ _ h, ih⟩

/-- The whole numbers of a tree stand among its tokens. -/
theorem Derives.integersFit (h : Derives level ts x) (hx : x.IntegersFit) : IntegersFit ts := by
  induction h with
  | tighter _ ih => exact ih hx
  | assignment _ ht _ _ ihl ihr | binary _ ht _ _ ihl ihr =>
    refine IntegersFit.append_iff.mpr ⟨ihl fun s m hm => hx s m ?_,
      .cons (by simp [ht]) (ihr fun s m hm => hx s m ?_)⟩
    all_goals simp [nodes, hm]
  | before ht _ ih =>
    exact .cons (by simp [ht]) (ih fun s m hm => hx s m (by simp [nodes, hm]))
  | behind _ _ ht ih =>
    refine IntegersFit.append_iff.mpr ⟨ih fun s m hm => hx s m ?_, .cons (by simp [ht]) .nil⟩
    simp [nodes, hm]
  | subscript _ ht _ hu iha ihi =>
    refine IntegersFit.append_iff.mpr ⟨iha fun s m hm => hx s m ?_, .cons (by simp [ht])
      (IntegersFit.append_iff.mpr ⟨ihi fun s m hm => hx s m ?_, .cons (by simp [hu]) .nil⟩)⟩
    all_goals simp [nodes, hm]
  | name ht => exact .cons (by simp [ht]) .nil
  | @literal t s value ht =>
    refine List.forall_mem_singleton.mpr fun hkind => ?_
    simp only [literalOf?, hkind, Option.some.injEq] at ht
    subst ht
    exact Int.ofNat_le.mp (hx s _ (by simp [nodes]))
  | parentheses ht _ hu ih =>
    refine .cons (by simp [ht]) (IntegersFit.append_iff.mpr ⟨ih fun s m hm => hx s m ?_,
      .cons (by simp [hu]) .nil⟩)
    simp [nodes, hm]
  | @call _ _ _ s args _ hf ht hts _ hu ih =>
    refine .cons (by simp [hf]) (.cons (by simp [ht])
      (IntegersFit.append_iff.mpr ⟨hts.integersFit fun us hus => ?_, .cons (by simp [hu]) .nil⟩))
    obtain ⟨a, ha, rfl⟩ := List.mem_map.mp hus
    refine ih a ha fun s m hm => hx s m ?_
    rw [nodes, nodesAll_eq]
    exact List.mem_cons_of_mem _ (List.mem_flatMap.mpr ⟨a.2, List.mem_map_of_mem ha, hm⟩)

/-! ## Longer expressions -/

/-- An expression with these tokens may go on with that token. -/
def Continues (ts : List Token) (t : Token) : Prop :=
  (∃ op : BinaryOp, t.kind = .symbol op.symbol) ∨
    t.kind = .symbol .plusPlus ∨ t.kind = .symbol .minusMinus ∨ t.kind = .symbol .leftBracket ∨
    (t.kind = .symbol .leftParen ∧ ∃ u ∈ ts.getLast?, u.kind = .identifier)

/-- Where all expressions of a level may go on, so may those that bind less tightly: their last
operand goes on. Only a name goes on with what makes it a call. -/
theorem Derives.extend {inner : Nat} {vs : List Token} (hinner : inner ≤ 10)
    (hextend : ∀ {ts x}, Derives inner ts x →
      (9 < inner → ∃ u ∈ ts.getLast?, u.kind = .identifier) → ∃ y, Derives inner (ts ++ vs) y)
    (h : Derives level ts x) (hle : level ≤ inner)
    (hlast : 9 < inner → ∃ u ∈ ts.getLast?, u.kind = .identifier) :
    ∃ y, Derives level (ts ++ vs) y := by
  have hright {l us : List Token} {t : Token} (hus : us ≠ [])
      (h : 9 < inner → ∃ u ∈ (l ++ t :: us).getLast?, u.kind = .identifier) :
      9 < inner → ∃ u ∈ us.getLast?, u.kind = .identifier := by
    intro hlt
    obtain ⟨u, hu, hkind⟩ := h hlt
    obtain ⟨v, us, rfl⟩ := List.exists_cons_of_ne_nil hus
    exact ⟨u, by simpa using hu, hkind⟩
  have hsymbol {l : List Token} {t : Token} {s : Symbol} (ht : t.kind = .symbol s)
      (h : 9 < inner → ∃ u ∈ (l ++ [t]).getLast?, u.kind = .identifier) : inner ≤ 9 := by
    by_contra hlt
    obtain ⟨u, hu, hkind⟩ := h (by omega)
    obtain rfl : t = u := by simpa using hu
    rw [ht] at hkind
    cases hkind
  induction h with
  | tighter hx ih =>
    rcases Nat.eq_or_lt_of_le hle with rfl | hlt
    · exact hextend hx.tighter hlast
    · obtain ⟨y, hy⟩ := ih hlt hlast
      exact ⟨y, hy.tighter⟩
  | @assignment _ _ _ s op l _ hop ht hl hr _ ihr =>
    obtain ⟨y, hy⟩ := ihr hle (hright hr.ne_nil hlast)
    refine ⟨Expr.binary s op l y, ?_⟩
    rw [List.append_assoc, List.cons_append]
    exact .assignment hop ht hl hy
  | @binary _ _ _ s op l _ hop ht hl hr _ ihr =>
    rcases Nat.eq_or_lt_of_le hle with rfl | hlt
    · exact hextend (.binary (s := s) hop ht hl hr) hlast
    · obtain ⟨y, hy⟩ := ihr hlt (hright hr.ne_nil hlast)
      refine ⟨Expr.binary s op l y, ?_⟩
      rw [List.append_assoc, List.cons_append]
      exact .binary hop ht hl hy
  | @before _ _ s op _ ht hx ih =>
    obtain ⟨y, hy⟩ := ih hle (hright (l := []) hx.ne_nil hlast)
    exact ⟨Expr.unaryBefore s op y, .before ht hy⟩
  | @behind _ _ s _ _ hx hop ht _ =>
    obtain rfl : inner = 9 := Nat.le_antisymm (hsymbol ht hlast) hle
    exact hextend (.behind (s := s) hx hop ht) hlast
  | @subscript ts us t u s _ _ ha ht hi hu _ _ =>
    have hle' : inner ≤ 9 := hsymbol (l := ts ++ t :: us) hu (by simpa using hlast)
    obtain rfl : inner = 9 := Nat.le_antisymm hle' hle
    exact hextend (.subscript (s := s) ha ht hi hu) hlast
  | @name _ s id ht =>
    obtain rfl : inner = 10 := Nat.le_antisymm hinner hle
    have hx : Derives 10 _ (.var s ⟨id, _⟩) := .name ht
    exact hextend hx hlast
  | @literal _ s _ ht =>
    obtain rfl : inner = 10 := Nat.le_antisymm hinner hle
    exact hextend (.literal (s := s) ht) hlast
  | @parentheses _ _ _ s _ ht hx hu _ =>
    obtain rfl : inner = 10 := Nat.le_antisymm hinner hle
    exact hextend (.parentheses (s := s) ht hx hu) hlast
  | @call _ _ _ s _ _ hf ht hts hargs hu _ =>
    obtain rfl : inner = 10 := Nat.le_antisymm hinner hle
    exact hextend (.call (s := s) hf ht hts hargs hu) hlast

/-- The last operand of an assignment goes on with another assignment. -/
theorem Derives.extend_assignment {vs : List Token} {t : Token} {op : BinaryOp} {y : Expr}
    (hop : op.precedence = 1) (ht : t.kind = .symbol op.symbol) (hy : Derives 1 vs y)
    (h : Derives 1 ts x) : ∃ z, Derives 1 (ts ++ t :: vs) z := by
  generalize hlevel : 1 = level at h
  induction h with
  | tighter h _ =>
    subst hlevel
    exact ⟨.binary Span.none op _ y, .assignment hop ht h hy⟩
  | @assignment _ _ _ s op' l _ hop' ht' hl _ _ ihr =>
    obtain ⟨z, hz⟩ := ihr rfl
    refine ⟨.binary s op' l z, ?_⟩
    rw [List.append_assoc, List.cons_append]
    exact .assignment hop' ht' hl hz
  | binary hop => exact absurd hlevel.symm hop
  | before => omega
  | behind => omega
  | subscript => omega
  | name => omega
  | literal => omega
  | parentheses => omega
  | call => omega

theorem Derives.le_ten (h : Derives level ts x) : level ≤ 10 := by
  induction h with
  | binary =>
    rename_i op _ _ _ _ _ _ _ _
    exact Nat.le_trans op.precedence_le (by decide)
  | _ => omega

/-- Of what binds tightest, only a name ends with an identifier. -/
theorem Derives.eq_name {f : Token} (h : Derives 10 ts x) (hf : f ∈ ts.getLast?)
    (hkind : f.kind = .identifier) : ts = [f] := by
  have hlast {l : List Token} {t : Token} {s : Symbol} (ht : t.kind = .symbol s) :
      f ∉ (l ++ [t]).getLast? := by
    intro hf
    obtain rfl : t = f := by simpa using hf
    rw [ht] at hkind
    cases hkind
  generalize hlevel : 10 = level at h
  cases h with
  | tighter h =>
    have hle := h.le_ten
    omega
  | name => simpa using hf
  | literal => simpa using hf
  | @parentheses ts t _ _ _ _ _ hu => exact absurd hf (hlast (l := t :: ts) hu)
  | @call g t _ _ _ ts _ _ _ _ hu => exact absurd hf (hlast (l := g :: t :: ts) hu)
  | @binary _ _ _ _ op =>
    have hle := op.precedence_le
    omega
  | assignment => omega
  | before => omega
  | behind => omega
  | subscript => omega

/-- No token is in `Continues` for nothing: some longer expression has it there. -/
theorem Derives.exists_longer {t : Token} (h : Derives 1 ts x) (ht : Continues ts t) :
    ∃ us y, Derives 1 (ts ++ t :: us) y := by
  let v : Token := ⟨.identifier, Span.none, "x"⟩
  have hv : Derives 10 [v] (.var Span.none ⟨0, v.lexeme⟩) := .name rfl
  have hnine {P : Prop} : 9 < 9 → P := fun h => absurd h (Nat.lt_irrefl 9)
  rcases ht with ⟨op, ht⟩ | ht | ht | ht | ⟨ht, hname⟩
  · refine ⟨[v], ?_⟩
    by_cases hop : op.precedence = 1
    · exact extend_assignment hop ht (hv.mono (by decide)) h
    · have hle := op.precedence_le
      have hten : op.precedence ≤ 10 := by omega
      refine extend hten (fun {ts x} hx _ => ?_) h op.one_le_precedence (by omega)
      exact ⟨.binary Span.none op x _, .binary hop ht hx (hv.mono (by omega))⟩
  · exact ⟨[], extend (by decide) (fun {ts x} hx _ => ⟨.unaryBehind Span.none .increment x,
      .behind hx (.inl rfl) ht⟩) h (by decide) hnine⟩
  · exact ⟨[], extend (by decide) (fun {ts x} hx _ => ⟨.unaryBehind Span.none .decrement x,
      .behind hx (.inr rfl) ht⟩) h (by decide) hnine⟩
  · let u : Token := ⟨.symbol .rightBracket, Span.none, "]"⟩
    exact ⟨[v, u], extend (by decide) (fun {ts x} hx _ => ⟨.subscript Span.none x _,
      .subscript hx ht (hv.mono (by decide)) (u := u) rfl⟩) h (by decide) hnine⟩
  · let u : Token := ⟨.symbol .rightParen, Span.none, ")"⟩
    refine ⟨[u], extend (Nat.le_refl 10) (fun {ts x} hx hlast => ?_) h (by decide) fun _ => hname⟩
    obtain ⟨f, hf, hkind⟩ := hlast (by decide)
    obtain rfl := hx.eq_name hf hkind
    have hargs : Commas (([] : List (List Token × Expr)).map Prod.fst) [] := .nil
    exact ⟨.call Span.none f.lexeme [], .call hkind ht hargs (by simp) (u := u) rfl⟩

end Grammar

end LoopNest
