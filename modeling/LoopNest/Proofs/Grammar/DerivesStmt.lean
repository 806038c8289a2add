import LoopNest.Proofs.Grammar.Derives
import LoopNest.Stmt

/-!
# Derivations of programs

The grammar of types, attributes, declarations, statements and functions as relations between tokens
and trees, without a reader. Places, numbers of variables and what is said of variables in their
table are not the grammar's.

* `Grammar.DerivesAttribute`, `Grammar.DerivesType`, `Grammar.DerivesDeclaration`: the tokens are
  one of these.
* `Grammar.DerivesRest`: the tokens are a statement without the attributes in front of it.
* `Grammar.DerivesStmt`, `Grammar.DerivesFunction`: the tokens are a statement, a function.
-/

namespace LoopNest

namespace Grammar

/-! ## Attributes and types -/

/-- Arguments with commas between them. -/
inductive DerivesArguments : List Token → List Expr → Prop
  | list {args : List (List Token × Expr)} {ts : List Token} (hts : Commas (args.map Prod.fst) ts)
      (hargs : ∀ a ∈ args, Derives 1 a.1 a.2) : DerivesArguments ts (args.map Prod.snd)

inductive DerivesAttribute : List Token → Attribute → Prop
  | plain {t n : Token} {s : Span} (ht : t.kind = .symbol .atSign) (hn : n.kind = .identifier) :
      DerivesAttribute [t, n] ⟨n.lexeme, [], s⟩
  | applied {t n u v : Token} {ts : List Token} {args : List Expr} {s : Span}
      (ht : t.kind = .symbol .atSign) (hn : n.kind = .identifier) (hu : u.kind = .symbol .leftParen)
      (hargs : DerivesArguments ts args) (hv : v.kind = .symbol .rightParen) :
      DerivesAttribute (t :: n :: u :: (ts ++ [v])) ⟨n.lexeme, args, s⟩

def IsStars (ts : List Token) (n : Nat) : Prop := ts.length = n ∧ ∀ t ∈ ts, t.kind = .symbol .star

/-- A word behind `long` that says no more. -/
def IsLongWord (t : Token) : Prop :=
  t.kind = .keyword (.type .long) ∨ t.kind = .keyword (.type .int)

/-- A type with its stars. Only behind `long` there may be further words. -/
inductive DerivesType : List Token → VarType → Prop
  | words {t : Token} {base : BaseType} {ts us : List Token} {n : Nat}
      (ht : t.kind = .keyword (.type base)) (hlong : ts ≠ [] → base = .long)
      (hts : ∀ t ∈ ts, IsLongWord t) (hus : IsStars us n) :
      DerivesType (t :: (ts ++ us)) ⟨base, n⟩

theorem DerivesType.base_eq {ts : List Token} {type : VarType} {base : BaseType}
    (h : DerivesType ts type) (hfirst : ∀ t ∈ ts.head?, t.kind = .keyword (.type base)) :
    type.base = base := by
  obtain ⟨ht, -, -, -⟩ := h
  have hkind := hfirst _ rfl
  rw [ht] at hkind
  cases hkind
  rfl

/-! ## Declarations -/

/-- Brackets with a size. -/
inductive DerivesSize : List Token → Prop
  | size {t u : Token} {ts : List Token} {x : Expr} (ht : t.kind = .symbol .leftBracket)
      (h : Derives 1 ts x) (hu : u.kind = .symbol .rightBracket) : DerivesSize (t :: (ts ++ [u]))

/-- Brackets behind a parameter, where the size may be left out. -/
inductive DerivesBrackets : List Token → Prop
  | sized {ts : List Token} (h : DerivesSize ts) : DerivesBrackets ts
  | bare {t u : Token} (ht : t.kind = .symbol .leftBracket) (hu : u.kind = .symbol .rightBracket) :
      DerivesBrackets [t, u]

inductive DerivesParameter : List Token → VarRef → Prop
  | named {ts us vs : List Token} {n : Token} {type : VarType} {stars id : Nat}
      {brackets : List Unit} (hts : DerivesType ts type) (hus : IsStars us stars)
      (hn : n.kind = .identifier) (hvs : Rows (fun ws _ => DerivesBrackets ws) vs brackets) :
      DerivesParameter (ts ++ (us ++ n :: vs)) ⟨id, n.lexeme⟩

/-- Parameters with commas between them. A lone `void` stands for none. -/
inductive DerivesParameters : List Token → List VarRef → Prop
  | list {params : List (List Token × VarRef)} {ts : List Token}
      (hts : Commas (params.map Prod.fst) ts) (hparams : ∀ p ∈ params, DerivesParameter p.1 p.2) :
      DerivesParameters ts (params.map Prod.snd)
  | void {ts : List Token} {type : VarType} (hts : DerivesType ts type)
      (hvoid : type.base = .void) : DerivesParameters ts []

/-- An initial value behind its sign, if there is one. -/
inductive DerivesInitializer : List Token → Option Expr → Prop
  | none : DerivesInitializer [] none
  | value {t : Token} {ts : List Token} {x : Expr} (ht : t.kind = .symbol .equal)
      (h : Derives 1 ts x) : DerivesInitializer (t :: ts) (some x)

inductive DerivesDeclarator : List Token → Declarator → Prop
  | named {ts us vs : List Token} {n : Token} {stars id : Nat} {sizes : List Unit} {s : Span}
      {value : Option Expr} (hts : IsStars ts stars) (hn : n.kind = .identifier)
      (hus : Rows (fun ws _ => DerivesSize ws) us sizes) (hvs : DerivesInitializer vs value) :
      DerivesDeclarator (ts ++ n :: (us ++ vs)) ⟨⟨id, n.lexeme⟩, value, s⟩

/-- A type, one or more declarators with commas between them, and a semicolon. -/
inductive DerivesDeclaration : List Token → List Declarator → Prop
  | list {ts us : List Token} {t : Token} {type : VarType} {ds : List (List Token × Declarator)}
      (hts : DerivesType ts type) (hus : Commas (ds.map Prod.fst) us) (hne : ds ≠ [])
      (hds : ∀ d ∈ ds, DerivesDeclarator d.1 d.2) (ht : t.kind = .symbol .semicolon) :
      DerivesDeclaration (ts ++ (us ++ [t])) (ds.map Prod.snd)

theorem DerivesDeclaration.ne_nil {ts : List Token} {ds : List Declarator}
    (h : DerivesDeclaration ts ds) : ts ≠ [] := by
  obtain ⟨⟩ := h
  simp

/-! ## Headers of loops -/

/-- A clause of a header, which may be left out. -/
inductive DerivesClause : List Token → Stmt → Prop
  | omitted {s : Span} : DerivesClause [] (.empty ⟨s, []⟩)
  | expression {ts : List Token} {x : Expr} {s : Span} (h : Derives 1 ts x) :
      DerivesClause ts (.expression ⟨s, []⟩ x)

/-- The first clause of a header with its semicolon. -/
inductive DerivesInit : List Token → Stmt → Prop
  | clause {ts : List Token} {t : Token} {c : Stmt} (h : DerivesClause ts c)
      (ht : t.kind = .symbol .semicolon) : DerivesInit (ts ++ [t]) c
  | declaration {ts : List Token} {ds : List Declarator} {s : Span}
      (h : DerivesDeclaration ts ds) : DerivesInit ts (.declaration ⟨s, []⟩ ds)

/-- The attributes in a header. -/
inductive DerivesMarks : List Token → List Attribute → Prop
  | none : DerivesMarks [] []
  | behind {t : Token} {ts : List Token} {marks : List Attribute} (ht : t.kind = .symbol .semicolon)
      (h : Rows DerivesAttribute ts marks) : DerivesMarks (t :: ts) marks

/-- A header without the parenthesis that opens it. -/
inductive DerivesHeader : List Token → Stmt → Stmt → Stmt → List Attribute → Prop
  | clauses {ts us vs ws : List Token} {t u : Token} {init check update : Stmt}
      {marks : List Attribute} (hinit : DerivesInit ts init) (hcheck : DerivesClause us check)
      (ht : t.kind = .symbol .semicolon) (hupdate : DerivesClause vs update)
      (hmarks : DerivesMarks ws marks) (hu : u.kind = .symbol .rightParen) :
      DerivesHeader (ts ++ (us ++ t :: (vs ++ (ws ++ [u])))) init check update marks

/-! ## Statements -/

/-- A condition in parentheses behind a keyword. -/
inductive DerivesCondition (k : Keyword) : List Token → Expr → Prop
  | parentheses {k' t u : Token} {ts : List Token} {x : Expr} (hk : k'.kind = .keyword k)
      (ht : t.kind = .symbol .leftParen) (h : Derives 1 ts x) (hu : u.kind = .symbol .rightParen) :
      DerivesCondition k (k' :: t :: (ts ++ [u])) x

theorem DerivesCondition.ne_nil {k : Keyword} {ts : List Token} {x : Expr}
    (h : DerivesCondition k ts x) : ts ≠ [] := by
  obtain ⟨⟩ := h
  exact List.cons_ne_nil _ _

/-- A value that may be left out. -/
inductive DerivesValue : List Token → Option Expr → Prop
  | none : DerivesValue [] none
  | value {ts : List Token} {x : Expr} (h : Derives 1 ts x) : DerivesValue ts (some x)

section

variable (S : List Token → Stmt → Prop)

/-- Statements between braces. -/
inductive DerivesBlock : List Token → List Stmt → Prop
  | braces {t u : Token} {ts : List Token} {body : List Stmt} (ht : t.kind = .symbol .leftBrace)
      (h : Rows S ts body) (hu : u.kind = .symbol .rightBrace) :
      DerivesBlock (t :: (ts ++ [u])) body

/-- A statement behind its attributes, with `S` for the statements inside it. -/
inductive DerivesRest : List Token → List Attribute → Stmt → Prop
  | forLoop {marks more : List Attribute} {t u : Token} {ts us : List Token} {s : Span}
      {init check update body : Stmt} (ht : t.kind = .keyword .forLoop)
      (hu : u.kind = .symbol .leftParen) (hts : DerivesHeader ts init check update more)
      (hus : S us body) :
      DerivesRest (t :: u :: (ts ++ us)) marks
        (.forLoop ⟨s, marks ++ more⟩ init check update body)
  | block {marks : List Attribute} {ts : List Token} {s : Span} {body : List Stmt}
      (h : DerivesBlock S ts body) : DerivesRest ts marks (.block ⟨s, marks⟩ body)
  | ifThen {marks : List Attribute} {ts us : List Token} {s : Span} {c : Expr} {thenBranch : Stmt}
      (hts : DerivesCondition .ifThen ts c) (hus : S us thenBranch) :
      DerivesRest (ts ++ us) marks (.ifThen ⟨s, marks⟩ c thenBranch)
  | ifElse {marks : List Attribute} {ts us vs : List Token} {t : Token} {s : Span} {c : Expr}
      {thenBranch elseBranch : Stmt} (hts : DerivesCondition .ifThen ts c) (hus : S us thenBranch)
      (ht : t.kind = .keyword .elseBranch) (hvs : S vs elseBranch) :
      DerivesRest (ts ++ (us ++ t :: vs)) marks (.ifElse ⟨s, marks⟩ c thenBranch elseBranch)
  | whileLoop {marks : List Attribute} {ts us : List Token} {s : Span} {c : Expr} {body : Stmt}
      (hts : DerivesCondition .whileLoop ts c) (hus : S us body) :
      DerivesRest (ts ++ us) marks (.whileLoop ⟨s, marks⟩ c body)
  | returns {marks : List Attribute} {t u : Token} {ts : List Token} {s : Span}
      {value : Option Expr} (ht : t.kind = .keyword .returnValue) (hts : DerivesValue ts value)
      (hu : u.kind = .symbol .semicolon) :
      DerivesRest (t :: (ts ++ [u])) marks (.returns ⟨s, marks⟩ value)
  | empty {marks : List Attribute} {t : Token} {s : Span} (ht : t.kind = .symbol .semicolon) :
      DerivesRest [t] marks (.empty ⟨s, marks⟩)
  | declaration {marks : List Attribute} {ts : List Token} {s : Span} {ds : List Declarator}
      (h : DerivesDeclaration ts ds) : DerivesRest ts marks (.declaration ⟨s, marks⟩ ds)
  | expression {marks : List Attribute} {ts : List Token} {t : Token} {s : Span} {x : Expr}
      (h : Derives 1 ts x) (ht : t.kind = .symbol .semicolon) :
      DerivesRest (ts ++ [t]) marks (.expression ⟨s, marks⟩ x)

end

section

variable {S S' : List Token → Stmt → Prop} {ts : List Token}

theorem DerivesBlock.ne_nil {body : List Stmt} (h : DerivesBlock S ts body) : ts ≠ [] := by
  obtain ⟨⟩ := h
  exact List.cons_ne_nil _ _

/-- What is known of the statements in a block. -/
theorem DerivesBlock.imp {body : List Stmt} (h : DerivesBlock S ts body)
    (himp : ∀ us s, us.Sublist ts → S us s → S' us s) : DerivesBlock S' ts body := by
  obtain ⟨ht, h, hu⟩ := h
  refine .braces ht (h.within.mono fun us s hs => ?_) hu
  obtain ⟨hs, hsub⟩ := hs
  exact himp us s ((hsub.trans (List.sublist_append_left _ _)).cons _) hs

/-- What is known of the statements in a statement. -/
theorem DerivesRest.imp {marks : List Attribute} {s : Stmt} (h : DerivesRest S ts marks s)
    (himp : ∀ us s, us.Sublist ts → S us s → S' us s) : DerivesRest S' ts marks s := by
  cases h with
  | forLoop ht hu hts hus =>
    exact .forLoop ht hu hts (himp _ _ (((List.sublist_append_right _ _).cons _).cons _) hus)
  | block h => exact .block (h.imp himp)
  | ifThen hts hus => exact .ifThen hts (himp _ _ (List.sublist_append_right _ _) hus)
  | @ifElse _ ts us vs t _ _ _ _ hts hus ht hvs =>
    have hthen : us.Sublist (ts ++ (us ++ t :: vs)) :=
      (List.sublist_append_left us _).trans (List.sublist_append_right ts _)
    have helse : vs.Sublist (ts ++ (us ++ t :: vs)) :=
      ((List.sublist_cons_self t vs).trans (List.sublist_append_right us _)).trans
        (List.sublist_append_right ts _)
    exact .ifElse hts (himp _ _ hthen hus) ht (himp _ _ helse hvs)
  | whileLoop hts hus => exact .whileLoop hts (himp _ _ (List.sublist_append_right _ _) hus)
  | returns ht hts hu => exact .returns ht hts hu
  | empty ht => exact .empty ht
  | declaration h => exact .declaration h
  | expression h ht => exact .expression h ht

end

/-- A statement with the attributes in front of it. -/
inductive DerivesStmt : List Token → Stmt → Prop
  | marked {ts us : List Token} {marks : List Attribute} {s : Stmt}
      (hts : Rows DerivesAttribute ts marks) (hus : DerivesRest DerivesStmt us marks s) :
      DerivesStmt (ts ++ us) s

theorem DerivesRest.ne_nil {S : List Token → Stmt → Prop} {ts : List Token}
    {marks : List Attribute} {s : Stmt} (h : DerivesRest S ts marks s) : ts ≠ [] := by
  cases h with
  | forLoop | returns | empty => exact List.cons_ne_nil _ _
  | block h => exact h.ne_nil
  | ifThen hts _ => exact List.append_ne_nil_of_left_ne_nil hts.ne_nil _
  | ifElse hts _ _ _ => exact List.append_ne_nil_of_left_ne_nil hts.ne_nil _
  | whileLoop hts _ => exact List.append_ne_nil_of_left_ne_nil hts.ne_nil _
  | declaration h => exact h.ne_nil
  | expression h _ => exact List.append_ne_nil_of_left_ne_nil h.ne_nil _

theorem DerivesStmt.ne_nil {ts : List Token} {s : Stmt} (h : DerivesStmt ts s) : ts ≠ [] := by
  obtain ⟨_, hus⟩ := h
  exact List.append_ne_nil_of_right_ne_nil _ hus.ne_nil

/-! ## Functions -/

inductive DerivesFunction : List Token → Function → Prop
  | named {ts us vs ws : List Token} {n t u : Token} {marks : List Attribute} {type : VarType}
      {params : List VarRef} {body : List Stmt} {s s' : Span}
      (hts : Rows DerivesAttribute ts marks) (hus : DerivesType us type)
      (hn : n.kind = .identifier) (ht : t.kind = .symbol .leftParen)
      (hvs : DerivesParameters vs params) (hu : u.kind = .symbol .rightParen)
      (hws : DerivesBlock DerivesStmt ws body) :
      DerivesFunction (ts ++ (us ++ n :: t :: (vs ++ u :: ws)))
        ⟨n.lexeme, type, params, ⟨body, s⟩, marks, s'⟩

theorem DerivesFunction.ne_nil {ts : List Token} {f : Function} (h : DerivesFunction ts f) :
    ts ≠ [] := by
  cases h
  simp

end Grammar

end LoopNest
