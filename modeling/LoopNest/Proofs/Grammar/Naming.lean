import Mathlib.Data.List.Forall2
import LoopNest.Proofs.Grammar.Separate

/-!
# The tokens that name variables

Where the name of a declared variable stands can be seen from the tokens. A declarator starts with
its stars, and then comes the name; in a list of parameters the names are the identifiers outside
brackets.

* `Grammar.tokensFrom`: the tokens of a source text from a place on.
* `Declarator.nameToken?`, `Function.parameterNames`: the tokens that declare a name.
* `VarTable.DeclaredBy`: the entry of a variable is that of a declaration by this token.
* `Stmt.Placed`, `Function.Placed`: the variables of a tree are declared by these tokens.
* `Reader.Sound.tokensFrom_append`: what a step takes stands in front of what it leaves.
-/

namespace LoopNest

/-! ## The tokens that declare names -/

namespace Grammar

/-- The tokens from the one that starts at the place. -/
def tokensFrom (items : List Item) (place : Position) : List Token :=
  (items.filterMap Item.token?).dropWhile fun t => t.span.start != place

/-- The identifiers in front of a closing parenthesis and outside brackets, where `depth` brackets
are open already. -/
def namesOutside (depth : Nat) : List Token → List Token
  | [] => []
  | t :: ts =>
    if t.kind = .symbol .leftBracket then namesOutside (depth + 1) ts
    else if depth = 0 then
      if t.kind = .symbol .rightParen then []
      else if t.kind = .identifier then t :: namesOutside 0 ts
      else namesOutside 0 ts
    else namesOutside (if t.kind = .symbol .rightBracket then depth - 1 else depth) ts

variable {ts us : List Token} {t : Token}

/-- The brackets in front are passed over. -/
theorem namesOutside_eq_drop (depth : Nat) (ts : List Token) :
    namesOutside depth ts = namesOutside 0 (ts.drop (inBrackets depth ts).length) := by
  induction ts generalizing depth with
  | nil => rfl
  | cons t ts ih =>
    by_cases hleft : t.kind = .symbol .leftBracket
    · rw [namesOutside, if_pos hleft, inBrackets, if_pos hleft, List.length_cons,
        List.drop_succ_cons]
      exact ih (depth + 1)
    · by_cases hdepth : depth = 0
      · subst hdepth
        rw [inBrackets, if_neg hleft, if_pos rfl]
        rfl
      · rw [namesOutside, if_neg hleft, if_neg hdepth, inBrackets, if_neg hleft, if_neg hdepth,
          List.length_cons, List.drop_succ_cons]
        exact ih _

/-- So are the sizes of an array. -/
theorem namesOutside_sizes {nss : List (List String)} (h : Rows IsSize ts nss)
    (ht : t.kind ≠ .symbol .leftBracket) :
    namesOutside 0 (ts ++ t :: us) = namesOutside 0 (t :: us) := by
  rw [namesOutside_eq_drop, h.inBrackets ht, List.drop_left]

/-- A token that is no name, and neither opens brackets nor closes the parameters. -/
def IsPlain (t : Token) : Prop := t.kind ∉ [.symbol .leftBracket, .symbol .rightParen, .identifier]

theorem namesOutside_plain (h : ∀ t ∈ ts, IsPlain t) :
    namesOutside 0 (ts ++ us) = namesOutside 0 us := by
  induction ts with
  | nil => rfl
  | cons t ts ih =>
    obtain ⟨ht, hts⟩ := List.forall_mem_cons.mp h
    simp only [IsPlain, List.mem_cons, List.not_mem_nil, or_false, not_or] at ht
    rw [List.cons_append, namesOutside, if_neg ht.1, if_pos rfl, if_neg ht.2.1, if_neg ht.2.2]
    exact ih hts

theorem namesOutside_name (ht : t.kind = .identifier) :
    namesOutside 0 (t :: ts) = t :: namesOutside 0 ts := by
  rw [namesOutside, if_neg (by simp [ht]), if_pos rfl, if_neg (by simp [ht]), if_pos ht]

theorem namesOutside_close (ht : t.kind = .symbol .rightParen) : namesOutside 0 (t :: ts) = [] := by
  rw [namesOutside, if_neg (by simp [ht]), if_pos rfl, if_pos ht]

end Grammar

/-- The token behind the stars that a declarator starts with. -/
def Declarator.nameToken? (items : List Item) (d : Declarator) : Option Token :=
  ((Grammar.tokensFrom items d.span.start).dropWhile fun t => t.kind == .symbol .star).head?

/-- The identifiers outside brackets in the list of parameters. -/
def Function.parameterNames (items : List Item) (f : Function) : List Token :=
  Grammar.namesOutside 0
    ((Grammar.tokensFrom items f.span.start).dropWhile fun t => t.kind != .symbol .leftParen).tail

/-! ## Variables and the tokens that declare them -/

/-- The entry of the variable is that of a declaration by this identifier. -/
structure VarTable.DeclaredBy (vars : VarTable) (v : VarRef) (t : Token) : Prop where
  kind : t.kind = .identifier
  name : t.lexeme = v.name
  entry : ∃ type, vars.get? v.id = some ⟨v.name, type, t.span, false⟩

/-- The variable of the declarator is declared by the name in it. -/
def Declarator.Placed (items : List Item) (d : Declarator) (vars : VarTable) : Prop :=
  ∃ t, d.nameToken? items = some t ∧ vars.DeclaredBy d.var t

def Stmt.Placed (items : List Item) (s : Stmt) (vars : VarTable) : Prop :=
  ∀ d ∈ s.declarators, d.Placed items vars

/-- The parameters are declared by the names in their list, and all other variables by the names in
their declarators. -/
structure Function.Placed (items : List Item) (f : Function) (vars : VarTable) : Prop where
  params : List.Forall₂ vars.DeclaredBy f.params (f.parameterNames items)
  body : ∀ s ∈ f.body.statements, s.Placed items vars

section

variable {items : List Item} {vars vars' : VarTable}

theorem VarTable.DeclaredBy.mono {v : VarRef} {t : Token} (h : vars.DeclaredBy v t)
    (hext : vars.Extends vars') : vars'.DeclaredBy v t := by
  obtain ⟨type, hentry⟩ := h.entry
  have hlt : v.id < vars.size := (Array.getElem?_eq_some_iff.mp hentry).1
  exact ⟨h.kind, h.name, type, (hext.get?_eq _ hlt).trans hentry⟩

/-- What a variable has in a table, it has in every longer one. -/
def VarTable.Lasting {α : Type} (P : α → VarTable → Prop) : Prop :=
  ∀ ⦃t u : VarTable⦄, t.Extends u → ∀ a, P a t → P a u

theorem VarTable.Lasting.all {α : Type} {P : α → VarTable → Prop} (h : VarTable.Lasting P) :
    VarTable.Lasting fun (as : List α) vars => ∀ a ∈ as, P a vars :=
  fun _ _ hext _ has a ha => h hext a (has a ha)

theorem Declarator.placed_lasting : VarTable.Lasting (Declarator.Placed items) := by
  rintro t u hext d ⟨name, hname, hdeclared⟩
  exact ⟨name, hname, hdeclared.mono hext⟩

theorem Stmt.placed_lasting : VarTable.Lasting (Stmt.Placed items) :=
  fun _ _ hext s => Declarator.placed_lasting.all hext s.declarators

theorem Function.placed_lasting : VarTable.Lasting (Function.Placed items) :=
  fun _ _ hext _ hf =>
    ⟨hf.params.imp fun _ _ h => h.mono hext, Stmt.placed_lasting.all hext _ hf.body⟩

end

/-! ## All declarations in a statement -/

/-- All declarations in the statement have the property. -/
def Stmt.AllDeclare (D : List Declarator → VarTable → Prop) (s : Stmt) (vars : VarTable) : Prop :=
  ∀ t ∈ s.statements, ∀ ds ∈ t.declarators?, D ds vars

section

variable {D : List Declarator → VarTable → Prop} {vars : VarTable} {s : Stmt}

theorem Stmt.allDeclare_lasting (hD : VarTable.Lasting D) : VarTable.Lasting (Stmt.AllDeclare D) :=
  fun _ _ hext _ hs t ht ds hds => hD hext ds (hs t ht ds hds)

/-- A statement has its own declaration and those in the statements directly below it. -/
theorem Stmt.allDeclare_of_parts (hown : ∀ ds ∈ s.declarators?, D ds vars)
    (hbelow : ∀ t ∈ s.children, t.AllDeclare D vars) : s.AllDeclare D vars := by
  intro t ht
  rw [statements_eq] at ht
  rcases List.mem_cons.mp ht with rfl | ht
  · exact hown
  · obtain ⟨u, hu, ht⟩ := List.mem_flatMap.mp ht
    exact hbelow u hu t ht

theorem Stmt.allDeclare_of_plain (hown : s.declarators? = none) (hbelow : s.children = []) :
    s.AllDeclare D vars :=
  allDeclare_of_parts (by simp [hown]) (by simp [hbelow])

theorem Stmt.allDeclare_declaration {ds : List Declarator} (head : StmtHead) (h : D ds vars) :
    (Stmt.declaration head ds).AllDeclare D vars := by
  apply allDeclare_of_parts
  · intro es hes
    rwa [← Option.some.inj hes]
  · simp [children]

theorem Stmt.allDeclare_of_isClause (h : s.IsClause) : s.AllDeclare D vars := by
  cases s with
  | expression _ _ | empty _ => exact allDeclare_of_plain rfl rfl
  | _ => cases h

theorem Stmt.placed_of_allDeclare {items : List Item}
    (h : s.AllDeclare (fun ds vars => ∀ d ∈ ds, d.Placed items vars) vars) :
    s.Placed items vars := by
  induction s using Stmt.children_induction with
  | _ s ih =>
    intro d hd
    rw [declarators_eq] at hd
    rcases List.mem_append.mp hd with hd | hd
    · cases hds : s.declarators? with
      | none =>
        rw [hds] at hd
        cases hd
      | some ds =>
        rw [hds] at hd
        refine h s ?_ ds hds d hd
        rw [statements_eq]
        exact List.mem_cons_self
    · obtain ⟨t, ht, hd⟩ := List.mem_flatMap.mp hd
      refine ih t ht (fun u hu => h u ?_) d hd
      rw [statements_eq]
      exact List.mem_cons_of_mem _ (List.mem_flatMap.mpr ⟨t, ht, hu⟩)

end

/-! ## The tokens that lie ahead -/

theorem Span.merge_start {s t : Span} (hline : 0 < s.start.line)
    (hle : s.start.offset ≤ t.start.offset) : (s.merge t).start = s.start := by
  rw [merge, if_neg (by simp [not_isNone hline])]
  split <;> rfl

namespace Reader.Sound

variable {items : List Item} {r r' : Reader} {ts : List Token}

/-- A token is found by its place. -/
theorem tokensFrom_eq (h : r.Sound items) :
    Grammar.tokensFrom items r.current.span.start = r.remaining.filterMap Item.token? := by
  obtain ⟨before, hitems⟩ := h.within
  have hstrict := h.strict
  rw [← hitems] at hstrict ⊢
  have hpassed : ∀ v ∈ before.filterMap Item.token?,
      (v.span.start != r.current.span.start) = true := by
    intro v hv
    obtain ⟨i, hi, hiv⟩ := List.mem_filterMap.mp hv
    cases i with
    | fault f => cases hiv
    | token w =>
      obtain rfl := Option.some.inj hiv
      have hlt := (List.pairwise_append.mp hstrict).2.2 _ hi _ List.mem_cons_self w rfl
      rw [bne_iff_ne]
      intro heq
      rw [heq] at hlt
      exact Nat.lt_irrefl _ hlt
  rw [Grammar.tokensFrom, List.filterMap_append, List.dropWhile_append_of_pos hpassed]
  exact List.dropWhile_cons_of_neg (by simp)

/-- The tokens that a step takes stand in front of those that it leaves. -/
theorem tokensFrom_append (h : r.Sound items) (h' : r'.Sound items)
    (hremaining : r.remaining = ts.map .token ++ r'.remaining) :
    Grammar.tokensFrom items r.current.span.start =
      ts ++ Grammar.tokensFrom items r'.current.span.start := by
  have htokens : (ts.map Item.token).filterMap Item.token? = ts := by
    rw [List.filterMap_map]
    exact List.filterMap_some
  rw [h.tokensFrom_eq, hremaining, List.filterMap_append, htokens, ← h'.tokensFrom_eq]

theorem tokensFrom_cons (h : r.Sound items) :
    ∃ us, Grammar.tokensFrom items r.current.span.start = r.current :: us :=
  ⟨_, h.tokensFrom_eq⟩

end Reader.Sound

end LoopNest
