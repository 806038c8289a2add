import LoopNest.Proofs.Grammar.Accepts
import LoopNest.Proofs.Grammar.Finds
import LoopNest.Proofs.Grammar.ReadExpr

/-!
# Expressions that are accepted

The words of an expression are read as an expression of its shape, if the word behind them cannot
belong to it.

* `Word.Ends`: a word that goes on with no expression.
* `Expr.derives_of_words`: the words of an expression derive it.
* `Grammar.expression_accepts`: the grammar accepts the words of all expressions.
-/

namespace LoopNest

/-! ## Words around an expression -/

/-- What starts an expression. -/
def Token.Kind.startsExpr : Token.Kind → Bool
  | integer | float | identifier | keyword (.bool _) => true
  | symbol s => s == .leftParen || s == .minus || s == .bang || s == .plusPlus || s == .minusMinus
  | _ => false

theorem Token.Kind.isType_of_startsExpr {k : Token.Kind} (h : k.startsExpr = true) :
    k.isType = false := by
  cases k with
  | keyword k =>
    cases k with
    | type base => cases h
    | _ => rfl
  | _ => rfl

/-- The word goes on with no expression. -/
structure Word.Ends (w : Word) : Prop where
  behind : w.kind.unaryBehind? = none
  bracket : w.kind ≠ .symbol .leftBracket
  paren : w.kind ≠ .symbol .leftParen
  binary : w.kind.binary? = none

theorem Word.Ends.stops {t : Token} (h : t.word.Ends) (ts : List Token) : Grammar.Stops 1 ts t := by
  refine ⟨h.behind, h.bracket, fun _ _ _ => h.paren, fun op hop => ?_⟩
  have hbinary : t.kind.binary? = none := h.binary
  rw [hbinary] at hop
  cases hop

theorem Symbol.ends_of_mem {s : Symbol} (h : s ∈ [rightParen, rightBracket, comma, semicolon]) :
    (Word.symbol s).Ends := by
  have hall : ∀ s ∈ [rightParen, rightBracket, comma, semicolon],
      (Token.Kind.symbol s).unaryBehind? = none ∧ (Token.Kind.symbol s).binary? = none ∧
        s ≠ leftBracket ∧ s ≠ leftParen := by
    decide
  obtain ⟨hbehind, hbinary, hbracket, hparen⟩ := hall s h
  exact ⟨hbehind, by simpa [Word.symbol] using hbracket, by simpa [Word.symbol] using hparen, hbinary⟩

theorem length_le_flatMap {α β : Type} {f : α → List β} {a : α} {as : List α} (h : a ∈ as) :
    (f a).length ≤ (as.flatMap f).length := by
  obtain ⟨as₁, as₂, rfl⟩ := List.append_of_mem h
  simp only [List.flatMap_append, List.flatMap_cons, List.length_append]
  omega

namespace Expr

theorem one_le_binding (x : Expr) : 1 ≤ x.binding := by
  cases x with
  | binary s op l r =>
    change 1 ≤ op.precedence
    cases op <;> decide
  | unaryBefore s op x => exact show 1 ≤ 8 by decide
  | _ => exact show 1 ≤ 9 by decide

/-- The first word of an expression. -/
theorem words_start : ∀ {x : Expr}, x.Grammatical → ∃ w ws, x.words = w :: ws ∧
    w.kind.startsExpr = true ∧ (9 ≤ x.binding → w.kind.unaryBefore? = none)
  | var _ v, _ => ⟨_, _, rfl, rfl, fun _ => rfl⟩
  | literal _ value, _ => ⟨_, _, rfl, by cases value <;> rfl, fun _ => by cases value <;> rfl⟩
  | unaryBefore s op x, _ => by
    refine ⟨_, _, rfl, by cases op <;> rfl, fun h => ?_⟩
    have hbinding : (unaryBefore s op x).binding = 8 := rfl
    omega
  | unaryBehind _ op x, ⟨_, hbinding, hx⟩ => by
    obtain ⟨w, ws, hwords, hstart, hplain⟩ := words_start hx
    exact ⟨w, _, by rw [words, hwords, List.cons_append], hstart, fun _ => hplain hbinding⟩
  | binary s op l r, ⟨⟨_, hl⟩, _⟩ => by
    obtain ⟨w, ws, hwords, hstart, _⟩ := words_start hl
    have hlt := binding_binary_lt s op l r
    exact ⟨w, _, by rw [words, hwords, List.cons_append], hstart, fun h => by omega⟩
  | parentheses _ x, _ => ⟨_, _, rfl, rfl, fun _ => rfl⟩
  | subscript _ a i, ⟨⟨hbinding, hx⟩, _⟩ => by
    obtain ⟨w, ws, hwords, hstart, hplain⟩ := words_start hx
    exact ⟨w, _, by rw [words, hwords, List.cons_append], hstart, fun _ => hplain hbinding⟩
  | call _ f args, _ => ⟨_, _, rfl, rfl, fun _ => rfl⟩

/-- The expression is of the right form and its floats are read back. -/
def Readable (x : Expr) : Prop := x.Grammatical ∧ x.Apart

/-! ## Words and derivations -/

section

variable {ts : List Token} {ws ws' : List Word} {w : Word}

/-- A token for each word. -/
theorem exists_token (h : ts.map Token.word = w :: ws) :
    ∃ t us, ts = t :: us ∧ t.kind = w.kind ∧ t.lexeme = w.lexeme ∧ us.map Token.word = ws := by
  obtain ⟨t, us, rfl, ht, hus⟩ := List.map_eq_cons_iff.mp h
  exact ⟨t, us, rfl, congrArg Word.kind ht, congrArg Word.lexeme ht, hus⟩

theorem exists_single (h : ts.map Token.word = [w]) :
    ∃ t, ts = [t] ∧ t.kind = w.kind ∧ t.lexeme = w.lexeme := by
  obtain ⟨t, us, rfl, hkind, hlexeme, hus⟩ := exists_token h
  obtain rfl := List.map_eq_nil_iff.mp hus
  exact ⟨t, rfl, hkind, hlexeme⟩

theorem exists_behind (h : ts.map Token.word = ws ++ w :: ws') :
    ∃ us t vs, ts = us ++ t :: vs ∧ us.map Token.word = ws ∧ t.kind = w.kind ∧
      vs.map Token.word = ws' := by
  obtain ⟨us, vs, rfl, hus, hvs⟩ := List.map_eq_append_iff.mp h
  obtain ⟨t, vs, rfl, hkind, _, hvs⟩ := exists_token hvs
  exact ⟨us, t, vs, rfl, hus, hkind, hvs⟩

end

theorem literalOf?_word {s : Span} {t : Token} {value : Literal} (hx : (literal s value).Readable)
    (hkind : t.kind = value.word.kind) (hlexeme : t.lexeme = value.word.lexeme) :
    Grammar.literalOf? t = some value := by
  unfold Grammar.literalOf?
  rw [hkind, hlexeme]
  cases value with
  | int n =>
    obtain ⟨m, rfl, _⟩ := hx.1
    have hvalue := Text.digitsValue_toDigits m
    rw [← Nat.toList_repr] at hvalue
    exact congrArg (fun k : Nat => some (Literal.int k)) hvalue
  | float x => exact hx.2.self.2.2
  | bool b => rfl

mutual

/-- Tokens with the words of an expression derive it. -/
theorem derives_of_words : ∀ {x : Expr} {ts : List Token}, x.Readable →
    ts.map Token.word = x.words → Grammar.Derives x.binding ts x
  | var s v, ts, _, h => by
    obtain ⟨t, rfl, hkind, hlexeme⟩ := exists_single h
    have hv : v = ⟨v.id, t.lexeme⟩ := by rw [hlexeme]; rfl
    rw [hv]
    exact (Grammar.Derives.name hkind).tighter
  | literal s value, ts, hx, h => by
    obtain ⟨t, rfl, hkind, hlexeme⟩ := exists_single h
    exact (Grammar.Derives.literal (literalOf?_word hx hkind hlexeme)).tighter
  | unaryBefore s op x, ts, ⟨⟨hbinding, hx⟩, ha⟩, h => by
    obtain ⟨t, us, rfl, hkind, _, hus⟩ := exists_token h
    have hy := derives_of_words (x := x) ⟨hx, ha.mono (by simp [nodes])⟩ hus
    exact .before hkind (hy.mono hbinding)
  | unaryBehind s op x, ts, ⟨⟨hop, hbinding, hx⟩, ha⟩, h => by
    obtain ⟨us, t, vs, rfl, hus, hkind, hvs⟩ := exists_behind h
    obtain rfl := List.map_eq_nil_iff.mp hvs
    have hy := derives_of_words (x := x) ⟨hx, ha.mono (by simp [nodes])⟩ hus
    exact .behind (hy.mono hbinding) hop hkind
  | binary s op l r, ts, ⟨⟨⟨hlevel, hl⟩, hlevel', hr⟩, ha⟩, h => by
    obtain ⟨us, t, vs, rfl, hus, hkind, hvs⟩ := exists_behind h
    have hleft := derives_of_words (x := l) ⟨hl, ha.mono (by simp [nodes])⟩ hus
    have hright := derives_of_words (x := r) ⟨hr, ha.mono (by simp [nodes])⟩ hvs
    change Grammar.Derives op.precedence _ _
    by_cases hop : op.precedence = 1
    · rw [leftLevel_of_eq hop] at hlevel
      rw [rightLevel_of_eq hop] at hlevel'
      rw [hop]
      exact .assignment hop hkind (hleft.mono hlevel) (hright.mono hlevel')
    · rw [leftLevel_of_ne hop] at hlevel
      rw [rightLevel_of_ne hop] at hlevel'
      exact .binary hop hkind (hleft.mono hlevel) (hright.mono hlevel')
  | parentheses s x, ts, ⟨hx, ha⟩, h => by
    obtain ⟨t, us, rfl, hkind, _, hrest⟩ := exists_token h
    obtain ⟨us, u, vs, rfl, hus, hkind', hvs⟩ := exists_behind hrest
    obtain rfl := List.map_eq_nil_iff.mp hvs
    have hy := derives_of_words (x := x) ⟨hx, ha.mono (by simp [nodes])⟩ hus
    exact (Grammar.Derives.parentheses hkind (hy.mono x.one_le_binding) hkind').tighter
  | subscript s a i, ts, ⟨⟨⟨hbinding, hx⟩, hi⟩, ha⟩, h => by
    obtain ⟨us, t, vs, rfl, hus, hkind, hrest⟩ := exists_behind h
    obtain ⟨vs, u, ws, rfl, hvs, hkind', hws⟩ := exists_behind hrest
    obtain rfl := List.map_eq_nil_iff.mp hws
    have harray := derives_of_words (x := a) ⟨hx, ha.mono (by simp [nodes])⟩ hus
    have hindex := derives_of_words (x := i) ⟨hi, ha.mono (by simp [nodes])⟩ hvs
    exact .subscript (harray.mono hbinding) hkind (hindex.mono i.one_le_binding) hkind'
  | call s f args, ts, hx, h => by
    obtain ⟨t, us, rfl, hkind, hlexeme, hrest⟩ := exists_token h
    obtain ⟨o, us, rfl, hopen, _, hrest'⟩ := exists_token hrest
    obtain ⟨us, c, vs, rfl, hus, hclose, hvs⟩ := exists_behind hrest'
    obtain rfl := List.map_eq_nil_iff.mp hvs
    have hargs : ∀ x ∈ args, x.Readable := fun x hx' =>
      ⟨(grammaticalAll_iff args).mp hx.1.2 x hx', apart_args hx.2 x hx'⟩
    obtain ⟨items, rfl, hcommas, hitems⟩ := derivesAll_of_words hargs hus
    have hf : f = t.lexeme := hlexeme.symm
    rw [hf]
    exact (Grammar.Derives.call hkind hopen hcommas hitems hclose).tighter

theorem derivesAll_of_words : ∀ {xs : List Expr} {ts : List Token}, (∀ x ∈ xs, x.Readable) →
    ts.map Token.word = Word.separated (wordsAll xs) → ∃ items : List (List Token × Expr),
      xs = items.map Prod.snd ∧ Grammar.Commas (items.map Prod.fst) ts ∧
        ∀ i ∈ items, Grammar.Derives 1 i.1 i.2
  | [], ts, _, h => by
    obtain rfl := List.map_eq_nil_iff.mp h
    exact ⟨[], rfl, .nil, by simp⟩
  | [x], ts, hxs, h => by
    have hwords : ts.map Token.word = x.words := by simpa [wordsAll, Word.separated] using h
    have hx := derives_of_words (hxs x (by simp)) hwords
    exact ⟨[(ts, x)], rfl, .single ts, by simpa using hx.mono x.one_le_binding⟩
  | x :: y :: xs, ts, hxs, h => by
    obtain ⟨hx, hxs⟩ := List.forall_mem_cons.mp hxs
    have hwords : ts.map Token.word =
        x.words ++ .symbol .comma :: Word.separated (wordsAll (y :: xs)) := by
      simpa [wordsAll, Word.separated] using h
    obtain ⟨us, t, vs, rfl, hus, hkind, hvs⟩ := exists_behind hwords
    have hx := derives_of_words hx hus
    obtain ⟨items, hitems, hcommas, hderives⟩ := derivesAll_of_words hxs hvs
    cases items with
    | nil => cases hitems
    | cons i items =>
      refine ⟨(us, x) :: i :: items, by rw [hitems]; rfl, .cons hkind hcommas, ?_⟩
      exact List.forall_mem_cons.mpr ⟨hx.mono x.one_le_binding, hderives⟩

end

theorem Grammatical.integersFit {x : Expr} (h : x.Grammatical) : x.IntegersFit := by
  intro s m hm
  obtain ⟨k, rfl, hle⟩ : (Literal.int m).Grammatical := h.nodes _ hm
  exact Int.ofNat_le.mpr hle

end Expr

/-- What is found without a problem has all that is ensured where none is noted. -/
theorem Parse.Accepts.of_finds {α : Type} {step : Parse α} {r : Reader} {Q Q' : α → Reader → Prop}
    (h : step.Finds r Q) (h' : step.Ensures r.remaining r Q') :
    step.Accepts r fun a r' => Q a r' ∧ Q' a r' := by
  intro hready
  obtain ⟨a, r', hrun, _, hproblems, hq⟩ := h hready.sound.scoped
  unfold Parse.Ensures at h'
  rw [hrun] at h' ⊢
  have hclean : r'.problems = [] := hproblems.trans hready.problems
  obtain ⟨hsound, hleads, hq'⟩ := (h' hclean).2 hready.sound a rfl
  exact ⟨a, rfl, ⟨hclean, hsound.here⟩, hleads, hq, hq'⟩

namespace Grammar

open Parse LoopNest.Expr

/-- The grammar accepts the words of every expression that was written right. -/
theorem expression_accepts {x : Expr} {r : Reader} {w : Word} {ws : List Word} (hx : x.Readable)
    (hw : w.Ends) (hsees : r.Sees (x.words ++ w :: ws)) :
    expression.Accepts r fun x' r' => x'.shape = x.shape ∧ r'.Sees (w :: ws) ∧
      r.context.Reads [x'] r'.context := by
  obtain ⟨ts, hremaining, hwords⟩ := hsees
  obtain ⟨us, vs, rfl, hus, hvs⟩ := List.map_eq_append_iff.mp hwords
  obtain ⟨t, vs, rfl, ht, hvs⟩ := List.map_eq_cons_iff.mp hvs
  have hderives : Derives 1 us x := (derives_of_words hx hus).mono x.one_le_binding
  have hfaces : r.Faces (us ++ t :: vs) [] := by rw [Reader.Faces, hremaining, List.append_nil]
  have hstops : Stops 1 us t := Word.Ends.stops (ht ▸ hw) us
  have hfinds := expression_finds hderives (hderives.integersFit hx.1.integersFit) hstops hfaces
  refine (Accepts.of_finds hfinds (expression_ensures r)).mono fun x' r' h => ?_
  obtain ⟨⟨hshape, hfaces'⟩, hreads⟩ := h
  refine ⟨hshape, ⟨t :: vs, by rw [hfaces', List.append_nil], ?_⟩, hreads.reads⟩
  rw [List.map_cons, ht, hvs]

/-- The grammar accepts arguments up to a closing parenthesis. -/
theorem arguments_accepts {args : List Expr} {r : Reader} {ws : List Word}
    (hargs : ∀ x ∈ args, x.Readable)
    (hsees : r.Sees (Word.separated (args.map words) ++ .symbol .rightParen :: ws)) :
    (arguments expression).Accepts r fun args' r' =>
      args'.map shape = args.map shape ∧ r'.Sees (.symbol .rightParen :: ws) := by
  refine .get ?_
  cases args with
  | nil =>
    rw [if_pos ((hsees.seesSymbol_iff .rightParen).mpr rfl)]
    exact .pure ⟨rfl, hsees⟩
  | cons x args =>
    obtain ⟨w, ws', hwords, hstart, _⟩ := words_start (hargs x List.mem_cons_self).1
    have hother : ¬ r.seesSymbol .rightParen = true := by
      have hahead := hsees
      simp only [List.map_cons, Word.separated, hwords, List.cons_append] at hahead
      rw [hahead.seesSymbol_iff]
      intro hkind
      rw [hkind] at hstart
      cases hstart
    rw [if_neg hother]
    refine Accepts.commaSeparated (σ := Unit) (I := fun _ xs _ => ∀ x ∈ xs, x.Readable)
      (R := fun _ xs xs' _ => xs'.map shape = xs.map shape) ?_ (fun _ _ _ => rfl)
      (by simp [Word.symbol]) (s := ()) hargs hsees
    intro _ x xs r w' ws' hxs hw' hsees
    obtain ⟨hx, hxs⟩ := List.forall_mem_cons.mp hxs
    have hends : w'.Ends := by
      rcases hw' with rfl | rfl <;> exact Symbol.ends_of_mem (by simp)
    refine (expression_accepts hx hends hsees).mono fun x' r' hx' => ?_
    refine ⟨(), hx'.2.1, hxs, fun as _ has => ?_⟩
    rw [List.map_cons, List.map_cons, hx'.1, has]

end Grammar

end LoopNest
