import LoopNest.Proofs.Grammar.DerivesStmt
import LoopNest.Proofs.Expr.Words

/-!
# Matched parentheses

In expressions and declarations every parenthesis has its partner, and there is no semicolon in
front of the last one of a declaration. So the words behind them tell where they end.

* `Word.Matched`: rows of words in which parentheses match.
* `Word.Matched.unique`: such a row in front of a semicolon or a closing parenthesis is the only
  one.
* `Grammar.Derives.matched`, `Grammar.DerivesClause.matched`, `Grammar.DerivesInit.exists_matched`:
  the words of expressions and of the clauses of a header.
-/

namespace LoopNest

/-! ## Rows of words -/

/-- A word of that kind closes nothing and opens no parenthesis. -/
def Token.Kind.isPlain : Token.Kind → Bool
  | symbol .semicolon | symbol .leftParen | symbol .rightParen => false
  | _ => true

namespace Word

/-- Rows of words without semicolons in which parentheses match. -/
inductive Matched : List Word → Prop
  | nil : Matched []
  | plain {w : Word} (h : w.kind.isPlain = true) : Matched [w]
  | parentheses {w w' : Word} {ws : List Word} (hw : w.kind = .symbol .leftParen)
      (h : Matched ws) (hw' : w'.kind = .symbol .rightParen) : Matched (w :: (ws ++ [w']))
  | append {ws ws' : List Word} (h : Matched ws) (h' : Matched ws') : Matched (ws ++ ws')

/-- What is left from the first semicolon, or from the first parenthesis that closes neither one of
`n` open ones nor one that is opened on the way. -/
def closing : Nat → List Word → List Word
  | _, [] => []
  | n, w :: ws =>
    match w.kind with
    | .symbol .leftParen => closing (n + 1) ws
    | .symbol .semicolon => w :: ws
    | .symbol .rightParen => if n = 0 then w :: ws else closing (n - 1) ws
    | _ => closing n ws

/-- A semicolon or a closing parenthesis. -/
def Closes (w : Word) : Prop := w.kind = .symbol .semicolon ∨ w.kind = .symbol .rightParen

variable {w w' : Word} {us us' ws ws' : List Word}

theorem closing_of_closes (h : w.Closes) (ws : List Word) : closing 0 (w :: ws) = w :: ws := by
  rcases h with h | h <;> simp [closing, h]

theorem closing_of_plain (h : w.kind.isPlain = true) (n : Nat) (ws : List Word) :
    closing n (w :: ws) = closing n ws := by
  rw [closing]
  split <;> simp_all [Token.Kind.isPlain]

namespace Matched

/-- Nothing is closed in a row in which parentheses match. -/
theorem closing_append (h : Matched us) (n : Nat) (ws : List Word) :
    closing n (us ++ ws) = closing n ws := by
  induction h generalizing n ws with
  | nil => rfl
  | plain h => exact closing_of_plain h n ws
  | @parentheses w w' us hw _ hw' ih =>
    have hopen (vs : List Word) : closing n (w :: vs) = closing (n + 1) vs := by
      simp [closing, hw]
    have hclose (vs : List Word) : closing (n + 1) (w' :: vs) = closing n vs := by
      simp [closing, hw']
    rw [List.cons_append, List.append_assoc, hopen, ih, List.singleton_append, hclose]
  | append _ _ ih ih' => rw [List.append_assoc, ih, ih']

/-- A row in which parentheses match ends in one place only. -/
theorem unique (h : Matched us) (h' : Matched us') (hw : w.Closes) (hw' : w'.Closes)
    (heq : us ++ w :: ws = us' ++ w' :: ws') : us = us' ∧ w :: ws = w' :: ws' := by
  have hrest := congrArg (closing 0) heq
  rw [h.closing_append, h'.closing_append, closing_of_closes hw, closing_of_closes hw'] at hrest
  rw [hrest] at heq
  exact ⟨List.append_cancel_right heq, hrest⟩

end Matched

end Word

/-! ## Words of the grammar -/

namespace Grammar

open Word (Matched)

/-- The words are those of a phrase of the grammar. -/
def Phrase {α : Type} (S : List Token → α → Prop) (ws : List Word) (a : α) : Prop :=
  ∃ ts, ts.map Token.word = ws ∧ S ts a

/-- Parentheses match in the words of the tokens. -/
def MatchedTokens (ts : List Token) : Prop := Matched (ts.map Token.word)

namespace MatchedTokens

variable {t u : Token} {ts us : List Token}

theorem nil : MatchedTokens [] := Matched.nil

theorem single (h : t.kind.isPlain = true) : MatchedTokens [t] := Matched.plain h

theorem append (h : MatchedTokens ts) (h' : MatchedTokens us) : MatchedTokens (ts ++ us) := by
  rw [MatchedTokens, List.map_append]
  exact Matched.append h h'

theorem cons (ht : t.kind.isPlain = true) (h : MatchedTokens ts) : MatchedTokens (t :: ts) :=
  (single ht).append h

theorem parentheses (ht : t.kind = .symbol .leftParen) (h : MatchedTokens ts)
    (hu : u.kind = .symbol .rightParen) : MatchedTokens (t :: (ts ++ [u])) := by
  rw [MatchedTokens, List.map_cons, List.map_append]
  exact Matched.parentheses ht h hu

theorem brackets (ht : t.kind = .symbol .leftBracket) (h : MatchedTokens ts)
    (hu : u.kind = .symbol .rightBracket) : MatchedTokens (t :: (ts ++ [u])) :=
  .cons (by rw [ht]; rfl) (h.append (.single (by rw [hu]; rfl)))

theorem of_plain (h : ∀ t ∈ ts, t.kind.isPlain = true) : MatchedTokens ts := by
  induction ts with
  | nil => exact .nil
  | cons t ts ih =>
    obtain ⟨ht, hts⟩ := List.forall_mem_cons.mp h
    exact .cons ht (ih hts)

theorem rows {α : Type} {S : List Token → α → Prop} {as : List α} (h : Rows S ts as)
    (hS : ∀ us a, S us a → MatchedTokens us) : MatchedTokens ts := by
  induction h with
  | nil => exact .nil
  | cons first _ ih => exact (hS _ _ first).append ih

theorem commas {tss : List (List Token)} (h : Commas tss ts) (htss : ∀ us ∈ tss, MatchedTokens us) :
    MatchedTokens ts := by
  induction h with
  | nil => exact .nil
  | single ts => exact htss ts List.mem_cons_self
  | cons hcomma _ ih =>
    obtain ⟨hfirst, hrest⟩ := List.forall_mem_cons.mp htss
    exact hfirst.append (.cons (by rw [hcomma]; rfl) (ih hrest))

end MatchedTokens

theorem isPlain_unary {op : UnaryOp} {t : Token} (h : t.kind = .symbol op.symbol) :
    t.kind.isPlain = true := by
  rw [h]
  cases op <;> rfl

theorem isPlain_binary {op : BinaryOp} {t : Token} (h : t.kind = .symbol op.symbol) :
    t.kind.isPlain = true := by
  rw [h]
  cases op <;> rfl

theorem isPlain_literal {t : Token} {value : Literal} (h : literalOf? t = some value) :
    t.kind.isPlain = true := by
  unfold literalOf? at h
  split at h
  · next heq => rw [heq]; rfl
  · next heq => rw [heq]; rfl
  · next heq => rw [heq]; rfl
  · cases h

theorem Derives.matched {level : Nat} {ts : List Token} {x : Expr} (h : Derives level ts x) :
    MatchedTokens ts := by
  induction h with
  | tighter _ ih => exact ih
  | assignment _ ht _ _ ihl ihr => exact ihl.append (.cons (isPlain_binary ht) ihr)
  | binary _ ht _ _ ihl ihr => exact ihl.append (.cons (isPlain_binary ht) ihr)
  | before ht _ ih => exact .cons (isPlain_unary ht) ih
  | behind _ _ ht ih => exact ih.append (.single (isPlain_unary ht))
  | subscript _ ht _ hu iha ihi => exact iha.append (.brackets ht ihi hu)
  | name ht => exact .single (by rw [ht]; rfl)
  | literal ht => exact .single (isPlain_literal ht)
  | parentheses ht _ hu ih => exact .parentheses ht ih hu
  | call hf ht hts _ hu ih =>
    exact .cons (by rw [hf]; rfl) (.parentheses ht (.commas hts (List.forall_mem_map.mpr ih)) hu)

theorem DerivesClause.matched {ts : List Token} {s : Stmt} (h : DerivesClause ts s) :
    MatchedTokens ts := by
  cases h with
  | omitted => exact .nil
  | expression h => exact h.matched

theorem IsStars.matched {ts : List Token} {n : Nat} (h : IsStars ts n) : MatchedTokens ts :=
  .of_plain fun t ht => by rw [h.2 t ht]; rfl

theorem DerivesType.matched {ts : List Token} {type : VarType} (h : DerivesType ts type) :
    MatchedTokens ts := by
  obtain ⟨ht, -, hts, hus⟩ := h
  refine .cons (by rw [ht]; rfl) (.append (.of_plain fun t ht => ?_) hus.matched)
  rcases hts t ht with hkind | hkind
  · rw [hkind]; rfl
  · rw [hkind]; rfl

theorem DerivesDeclarator.matched {ts : List Token} {d : Declarator} (h : DerivesDeclarator ts d) :
    MatchedTokens ts := by
  obtain ⟨hts, hn, hus, hvs⟩ := h
  have hsizes := MatchedTokens.rows hus fun _ _ hsize => by
    obtain ⟨ht, hx, hu⟩ := hsize
    exact .brackets ht hx.matched hu
  refine hts.matched.append (.cons (by rw [hn]; rfl) (hsizes.append ?_))
  cases hvs with
  | none => exact .nil
  | value ht hx => exact .cons (by rw [ht]; rfl) hx.matched

/-- The first clause of a header ends at its first semicolon. -/
theorem DerivesInit.exists_matched {ts : List Token} {s : Stmt} (h : DerivesInit ts s) :
    ∃ us t, ts = us ++ [t] ∧ MatchedTokens us ∧ t.kind = .symbol .semicolon := by
  cases h with
  | clause hc ht => exact ⟨_, _, rfl, hc.matched, ht⟩
  | declaration h =>
    obtain ⟨hts, hus, -, hds, ht⟩ := h
    have hdeclarators := MatchedTokens.commas hus
      (List.forall_mem_map.mpr fun d hd => (hds d hd).matched)
    exact ⟨_, _, (List.append_assoc _ _ _).symm, hts.matched.append hdeclarators, ht⟩

/-! ## Clauses of a header -/

theorem Phrase.matched {ws : List Word} {s : Stmt} (h : Phrase DerivesClause ws s) :
    Matched ws := by
  obtain ⟨ts, rfl, hts⟩ := h
  exact hts.matched

theorem Phrase.exists_matched {ws : List Word} {s : Stmt} (h : Phrase DerivesInit ws s) :
    ∃ us w, ws = us ++ [w] ∧ Matched us ∧ w.Closes := by
  obtain ⟨ts, rfl, hts⟩ := h
  obtain ⟨us, t, rfl, hus, ht⟩ := hts.exists_matched
  exact ⟨us.map Token.word, t.word, by rw [List.map_append, List.map_singleton], hus, .inl ht⟩

/-- The clauses of a header, with a semicolon behind the second one, in front of a word that closes
it: where each of them ends can be seen from the words. -/
theorem Phrase.clauses_unique {i i' k k' u u' ws ws' : List Word} {v v' w w' : Word}
    {a a' b b' c c' : Stmt} (hi : Phrase DerivesInit i a) (hi' : Phrase DerivesInit i' a')
    (hk : Phrase DerivesClause k b) (hk' : Phrase DerivesClause k' b') (hv : v.Closes)
    (hv' : v'.Closes) (hu : Phrase DerivesClause u c) (hu' : Phrase DerivesClause u' c')
    (hw : w.Closes) (hw' : w'.Closes)
    (heq : i ++ (k ++ v :: (u ++ w :: ws)) = i' ++ (k' ++ v' :: (u' ++ w' :: ws'))) :
    i = i' ∧ w :: ws = w' :: ws' := by
  obtain ⟨us, s, rfl, hus, hs⟩ := hi.exists_matched
  obtain ⟨us', s', rfl, hus', hs'⟩ := hi'.exists_matched
  rw [List.append_assoc, List.append_assoc] at heq
  obtain ⟨rfl, hinit⟩ := hus.unique hus' hs hs' heq
  obtain ⟨rfl, hclauses⟩ := List.cons.inj hinit
  obtain ⟨-, hcheck⟩ := hk.matched.unique hk'.matched hv hv' hclauses
  obtain ⟨-, hupdate⟩ := List.cons.inj hcheck
  exact ⟨rfl, (hu.matched.unique hu'.matched hw hw' hupdate).2⟩

end Grammar

end LoopNest
