import LoopNest.Proofs.Grammar.Derives

/-!
# The names in the sizes of arrays

The brackets behind the name of a variable hold sizes of arrays. They are read and left out of the
tree; which names they use can be seen from the tokens.

* `Grammar.variableNames`: the names of variables among tokens.
* `Grammar.sizeNames`: those in the brackets behind the token at a place.
* `Grammar.Derives.uses`: an expression uses the names in its tree.
* `Grammar.sizeNames_eq`: the names of sizes are those of their trees.
-/

namespace LoopNest

theorem UnaryOp.symbol_not_mem (op : UnaryOp) :
    op.symbol ∉ [.leftParen, .leftBracket, .rightBracket] := by
  cases op <;> decide

theorem BinaryOp.symbol_not_mem (op : BinaryOp) :
    op.symbol ∉ [.leftParen, .leftBracket, .rightBracket] := by
  cases op <;> decide

def Item.token? : Item → Option Token
  | token t => some t
  | fault _ => none

namespace Grammar

/-- The names of variables among the tokens: identifiers without a parenthesis behind them. -/
def variableNames : List Token → List String
  | [] => []
  | t :: ts =>
    if t.kind = .identifier ∧ ts.head?.map Token.kind ≠ some (.symbol .leftParen) then
      t.lexeme :: variableNames ts
    else variableNames ts

/-- The tokens of the brackets in front, where `depth` of them are open already. -/
def inBrackets (depth : Nat) : List Token → List Token
  | [] => []
  | t :: ts =>
    if t.kind = .symbol .leftBracket then t :: inBrackets (depth + 1) ts
    else if depth = 0 then []
    else t :: inBrackets (if t.kind = .symbol .rightBracket then depth - 1 else depth) ts

/-- The names of variables in the brackets behind the token at that place. -/
def sizeNames (items : List Item) (place : Span) : List String :=
  let behind := (items.filterMap Item.token?).dropWhile fun t => t.span != place
  variableNames (inBrackets 0 behind.tail)

/-! ## The names of an expression -/

/-- No parenthesis comes first. -/
def NoCall (ts : List Token) : Prop := ts.head?.map Token.kind ≠ some (.symbol .leftParen)

/-- The tokens use these names, if no parenthesis follows, and they close all brackets that they
open. -/
structure Uses (ts : List Token) (names : List String) : Prop where
  names : ∀ rest, NoCall rest → variableNames (ts ++ rest) = names ++ variableNames rest
  brackets : ∀ depth rest, inBrackets (depth + 1) (ts ++ rest) = ts ++ inBrackets (depth + 1) rest

variable {ts us : List Token} {t u : Token} {ms ns : List String}

theorem variableNames_cons (h : t.kind ≠ .identifier) (ts : List Token) :
    variableNames (t :: ts) = variableNames ts := by
  rw [variableNames, if_neg fun hname => h hname.1]

theorem inBrackets_cons (hleft : t.kind ≠ .symbol .leftBracket)
    (hright : t.kind ≠ .symbol .rightBracket) (depth : Nat) (ts : List Token) :
    inBrackets (depth + 1) (t :: ts) = t :: inBrackets (depth + 1) ts := by
  rw [inBrackets, if_neg hleft, if_neg (Nat.succ_ne_zero depth), if_neg hright]

namespace Uses

theorem nil : Uses [] [] := ⟨fun _ _ => rfl, fun _ _ => rfl⟩

theorem append (h : Uses ts ms) (h' : Uses us ns) (hcall : NoCall us) :
    Uses (ts ++ us) (ms ++ ns) := by
  refine ⟨fun rest hrest => ?_, fun depth rest => ?_⟩
  · have hbehind : NoCall (us ++ rest) := by
      cases us with
      | nil => exact hrest
      | cons u us => exact hcall
    rw [List.append_assoc, h.names _ hbehind, h'.names rest hrest, List.append_assoc]
  · rw [List.append_assoc, h.brackets, h'.brackets, List.append_assoc]

/-- A token in front that is no bracket and no name. -/
theorem cons (h : Uses ts ns) (hname : t.kind ≠ .identifier) (hleft : t.kind ≠ .symbol .leftBracket)
    (hright : t.kind ≠ .symbol .rightBracket) : Uses (t :: ts) ns := by
  refine ⟨fun rest hrest => ?_, fun depth rest => ?_⟩
  · rw [List.cons_append, variableNames_cons hname, h.names rest hrest]
  · rw [List.cons_append, inBrackets_cons hleft hright, h.brackets, List.cons_append]

/-- A token between others, such as an operator between operands. -/
theorem join (h : Uses ts ms) (h' : Uses us ns) (hname : t.kind ≠ .identifier)
    (hcall : t.kind ≠ .symbol .leftParen) (hleft : t.kind ≠ .symbol .leftBracket)
    (hright : t.kind ≠ .symbol .rightBracket) : Uses (ts ++ t :: us) (ms ++ ns) :=
  h.append (h'.cons hname hleft hright) (by simpa [NoCall] using hcall)

theorem inBrackets (h : Uses ts ns) (ht : t.kind = .symbol .leftBracket)
    (hu : u.kind = .symbol .rightBracket) : Uses (t :: (ts ++ [u])) ns := by
  have hplain {v : Token} {s : Symbol} (hv : v.kind = .symbol s) (vs : List Token) :
      variableNames (v :: vs) = variableNames vs := variableNames_cons (by simp [hv]) vs
  refine ⟨fun rest hrest => ?_, fun depth rest => ?_⟩
  · rw [List.cons_append, List.append_assoc, hplain ht, h.names _ (by simp [NoCall, hu]),
      List.singleton_append, hplain hu]
  · rw [List.cons_append, List.append_assoc, Grammar.inBrackets, if_pos ht, h.brackets,
      List.singleton_append, Grammar.inBrackets, if_neg (by simp [hu]),
      if_neg (Nat.succ_ne_zero _), if_pos hu]
    simp

/-- A symbol between others, such as an operator between operands. -/
theorem operator {s : Symbol} (h : Uses ts ms) (h' : Uses us ns) (ht : t.kind = .symbol s)
    (hs : s ∉ [.leftParen, .leftBracket, .rightBracket]) : Uses (ts ++ t :: us) (ms ++ ns) := by
  simp only [List.mem_cons, List.not_mem_nil, or_false, not_or] at hs
  refine h.join h' ?_ ?_ ?_ ?_ <;> simp [ht, hs]

theorem inParentheses (h : Uses ts ns) (ht : t.kind = .symbol .leftParen)
    (hu : u.kind = .symbol .rightParen) : Uses (t :: (ts ++ [u])) ns := by
  have hclosed := h.operator nil hu (by simp)
  rw [List.append_nil] at hclosed
  exact hclosed.cons (by simp [ht]) (by simp [ht]) (by simp [ht])

/-- The name of a function is not that of a variable. -/
theorem call (h : Uses (t :: ts) ns) (ht : t.kind = .symbol .leftParen) (hu : u.kind = .identifier) :
    Uses (u :: t :: ts) ns := by
  refine ⟨fun rest hrest => ?_, fun depth rest => ?_⟩
  · rw [List.cons_append, variableNames, if_neg, h.names rest hrest]
    simp [ht]
  · rw [List.cons_append, inBrackets_cons (by simp [hu]) (by simp [hu]), h.brackets]
    rfl

theorem of_name (hu : u.kind = .identifier) : Uses [u] [u.lexeme] := by
  refine ⟨fun rest hrest => ?_, fun depth rest => ?_⟩
  · rw [List.singleton_append, variableNames, if_pos ⟨hu, hrest⟩, List.singleton_append]
  · exact inBrackets_cons (by simp [hu]) (by simp [hu]) depth rest

/-- Arguments with commas between them. -/
theorem commas {items : List (List Token × Expr)} (h : Commas (items.map Prod.fst) ts)
    (hitems : ∀ i ∈ items, Uses i.1 (i.2.refs.map VarRef.name)) :
    Uses ts (((items.map Prod.snd).flatMap Expr.refs).map VarRef.name) := by
  induction items generalizing ts with
  | nil =>
    cases h
    exact nil
  | cons i items ih =>
    obtain ⟨hi, hitems⟩ := List.forall_mem_cons.mp hitems
    rw [List.map_cons, List.flatMap_cons, List.map_append]
    cases items with
    | nil =>
      cases h
      simpa using hi
    | cons j items =>
      cases h with
      | cons hcomma h => exact hi.operator (ih h hitems) hcomma (by simp)

end Uses

/-- The tokens of an expression use the names in its tree. -/
theorem Derives.uses {level : Nat} {x : Expr} (h : Derives level ts x) :
    Uses ts (x.refs.map VarRef.name) := by
  induction h with
  | tighter _ ih => exact ih
  | assignment _ ht _ _ ihl ihr | binary _ ht _ _ ihl ihr =>
    rw [Expr.refs_binary, List.map_append]
    exact ihl.operator ihr ht (BinaryOp.symbol_not_mem _)
  | @before _ _ _ op _ ht _ ih =>
    have hplain := op.symbol_not_mem
    simp only [List.mem_cons, List.not_mem_nil, or_false, not_or] at hplain
    exact ih.cons (by simp [ht]) (by simp [ht, hplain]) (by simp [ht, hplain])
  | behind _ _ ht ih =>
    have hjoined := ih.operator .nil ht (UnaryOp.symbol_not_mem _)
    rwa [List.append_nil] at hjoined
  | subscript _ ht _ hu iha ihi =>
    rw [Expr.refs_subscript, List.map_append]
    exact iha.append (ihi.inBrackets ht hu) (by simp [NoCall, ht])
  | name ht => exact .of_name ht
  | @literal t _ _ ht =>
    refine Uses.nil.cons ?_ ?_ ?_ <;> intro hkind <;> simp [literalOf?, hkind] at ht
  | parentheses ht _ hu ih => exact ih.inParentheses ht hu
  | call hf ht hts _ hu ih =>
    rw [Expr.refs_call]
    exact ((Uses.commas hts ih).inParentheses ht hu).call ht hf

/-! ## The names in brackets -/

/-- The tokens are brackets with these names in them, if there are any. -/
def IsSize (ts : List Token) (names : List String) : Prop :=
  ∃ t us u, ts = t :: (us ++ [u]) ∧ t.kind = .symbol .leftBracket ∧
    u.kind = .symbol .rightBracket ∧ Uses us names

theorem Rows.noCall {nss : List (List String)} (h : Rows IsSize ts nss) : NoCall ts := by
  cases h with
  | nil => simp [NoCall]
  | cons hsize _ =>
    obtain ⟨t, us, u, rfl, ht, _, _⟩ := hsize
    simp [NoCall, ht]

theorem Rows.uses {nss : List (List String)} (h : Rows IsSize ts nss) : Uses ts nss.flatten := by
  induction h with
  | nil => exact .nil
  | cons hsize hrest ih =>
    obtain ⟨t, us, u, rfl, ht, hu, hus⟩ := hsize
    exact (hus.inBrackets ht hu).append ih hrest.noCall

/-- The brackets end in front of the first token behind them. -/
theorem Rows.inBrackets {nss : List (List String)} (h : Rows IsSize ts nss)
    (ht : t.kind ≠ .symbol .leftBracket) : inBrackets 0 (ts ++ t :: us) = ts := by
  induction h with
  | nil => rw [List.nil_append, Grammar.inBrackets, if_neg ht, if_pos rfl]
  | cons hsize _ ih =>
    obtain ⟨v, vs, u, rfl, hv, hu, hvs⟩ := hsize
    rw [List.append_assoc, List.cons_append, List.append_assoc, Grammar.inBrackets, if_pos hv,
      hvs.brackets, List.singleton_append, Grammar.inBrackets, if_neg (by simp [hu]),
      if_neg (Nat.succ_ne_zero _), if_pos hu, Nat.add_sub_cancel, ih]
    simp

/-- The names in the brackets behind a token, if no token before it has its place. -/
theorem sizeNames_eq {before rest : List Item} {nss : List (List String)}
    (h : Rows IsSize ts nss) (hbefore : ∀ v, .token v ∈ before → v.span ≠ t.span)
    (hu : u.kind ≠ .symbol .leftBracket) :
    sizeNames (before ++ .token t :: (ts.map .token ++ .token u :: rest)) t.span = nss.flatten := by
  have htokens (vs : List Token) : (vs.map Item.token).filterMap Item.token? = vs := by
    rw [List.filterMap_map]
    exact List.filterMap_some
  have hpassed : ∀ v ∈ before.filterMap Item.token?, (v.span != t.span) = true := by
    intro v hv
    obtain ⟨i, hi, hiv⟩ := List.mem_filterMap.mp hv
    cases i with
    | fault f => cases hiv
    | token w =>
      obtain rfl := Option.some.inj hiv
      simpa using hbefore w hi
  have hnames := h.uses.names [] (by simp [NoCall])
  rw [List.append_nil] at hnames
  have hbehind : (Item.token t :: (ts.map .token ++ .token u :: rest)).filterMap Item.token? =
      t :: (ts ++ u :: rest.filterMap Item.token?) := by
    simp only [List.filterMap_cons, Item.token?, List.filterMap_append, htokens]
  unfold sizeNames
  rw [List.filterMap_append, List.dropWhile_append_of_pos hpassed, hbehind,
    List.dropWhile_cons_of_neg (by simp)]
  dsimp only [List.tail_cons]
  rw [h.inBrackets hu, hnames, variableNames, List.append_nil]

end Grammar

end LoopNest
