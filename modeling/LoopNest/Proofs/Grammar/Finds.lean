import LoopNest.Proofs.Grammar.Consumes

/-!
# What a step of reading finds

The converse of what is consumed: where the tokens of an expression lie ahead, and behind them one
that it cannot go on with, the expression is read up to there. Neither the problems noted before nor
what lies behind that token matter.

* `Reader.Faces`: the tokens that lie ahead of a reader.
* `Parse.Finds`: a step goes well, with a property of its result.
* `Parse.Finds.bind`, `Parse.Finds.many`: one rule for each way to build a step from others.
* `Grammar.expression_finds`: what is derived is read.
-/

namespace LoopNest

namespace Reader

variable {r : Reader} {t u : Token} {ts : List Token} {rest : List Item}

/-- These tokens lie ahead, and then the rest, whatever it is. -/
def Faces (r : Reader) (ts : List Token) (rest : List Item) : Prop :=
  r.remaining = ts.map .token ++ rest

theorem Faces.current (h : r.Faces (t :: ts) rest) : r.current = t :=
  Item.token.inj (List.cons.inj h).1

theorem Faces.advance (h : r.Faces (t :: u :: ts) rest) :
    r.advance.1 = .ok () ∧ r.advance.2.Faces (u :: ts) rest := by
  have hitems : r.items = .token u :: (ts.map .token ++ rest) := (List.cons.inj h).2
  unfold Reader.advance Faces remaining
  rw [hitems]
  exact ⟨rfl, rfl⟩

/-- There are at least as many items as tokens. -/
theorem Faces.length_le (h : r.Faces ts rest) : ts.length ≤ r.remaining.length := by
  rw [h, List.length_append, List.length_map]
  exact Nat.le_add_right _ _

end Reader

/-- A comma, or the token behind the last of some items. -/
def Token.EndsItem (last t : Token) : Prop := t.kind = .symbol .comma ∨ t = last

namespace Parse

variable {α β γ : Type}

/-- The step goes well and notes no problem, and the result and the reader behind the step satisfy
`Q`. -/
def Finds (step : Parse α) (r : Reader) (Q : α → Reader → Prop) : Prop :=
  r.Scoped → ∃ a r', step r = (.ok a, r') ∧ r'.Scoped ∧ r'.problems = r.problems ∧ Q a r'

namespace Finds

variable {r : Reader} {step : Parse α} {Q : α → Reader → Prop} {t : Token} {ts us : List Token}
  {rest : List Item}

theorem pure {a : α} (h : Q a r) : Finds (Pure.pure a) r Q :=
  fun hscoped => ⟨a, r, rfl, hscoped, rfl, h⟩

theorem bind {next : α → Parse β} {R : β → Reader → Prop} (h : step.Finds r Q)
    (hnext : ∀ a r₁, Q a r₁ → (next a).Finds r₁ R) : (step >>= next).Finds r R := by
  intro hscoped
  obtain ⟨a, r₁, hrun, hscoped₁, hproblems₁, hq⟩ := h hscoped
  obtain ⟨b, r₂, hrun₂, hscoped₂, hproblems₂, hr⟩ := hnext a r₁ hq hscoped₁
  refine ⟨b, r₂, ?_, hscoped₂, hproblems₂.trans hproblems₁, hr⟩
  rw [bind_apply, hrun]
  exact hrun₂

theorem get {next : Reader → Parse α} (h : (next r).Finds r Q) :
    (MonadStateOf.get >>= next).Finds r Q := h

theorem advance (h : r.Faces (t :: us) rest) (hne : us ≠ []) :
    Parse.advance.Finds r fun _ r' => r'.Faces us rest := by
  intro hscoped
  obtain ⟨u, us, rfl⟩ := List.exists_cons_of_ne_nil hne
  obtain ⟨hok, hfaces⟩ := h.advance
  refine ⟨(), r.advance.2, by rw [advance_apply, hok]; rfl, ?_, r.problems_advance, hfaces⟩
  have hkeep : r.advance.2.scopes = r.scopes ∧ r.advance.2.context = r.context := by
    unfold Reader.advance
    split <;> exact ⟨rfl, rfl⟩
  exact ⟨hkeep.1 ▸ hscoped.scopes, hkeep.2 ▸ hscoped.context⟩

theorem acceptKind (h : r.Faces (t :: us) rest) {k : Token.Kind} (ht : t.kind = k)
    (hne : us ≠ []) :
    (Parse.acceptKind k).Finds r fun b r' => b = true ∧ r'.Faces us rest := by
  refine .get ?_
  rw [if_pos (by rw [Reader.sees, h.current, ht]; exact beq_self_eq_true k)]
  exact (advance h hne).bind fun _ _ hr => .pure ⟨rfl, hr⟩

theorem acceptKind_other (h : r.Faces (t :: us) rest) {k : Token.Kind} (ht : t.kind ≠ k) :
    (Parse.acceptKind k).Finds r fun b r' => b = false ∧ r' = r := by
  refine .get ?_
  rw [if_neg (by rw [Reader.sees, h.current]; simpa using ht)]
  exact .pure ⟨rfl, rfl⟩

theorem expect {s : Symbol} (place : Place) (h : r.Faces (t :: us) rest)
    (ht : t.kind = .symbol s) (hne : us ≠ []) :
    (Parse.expect s place).Finds r fun _ r' => r'.Faces us rest := by
  refine .get ?_
  rw [if_pos (by rw [Reader.seesSymbol, Reader.sees, h.current, ht]; exact beq_self_eq_true _)]
  exact advance h hne

theorem resolve (n : String) (span : Span) (h : r.Faces ts rest) :
    (Parse.resolve n span).Finds r fun v r' => v.name = n ∧ r'.Faces ts rest := by
  intro hscoped
  obtain ⟨hname, hscopes, hresolves⟩ :=
    Context.resolves_of_scopes hscoped.scopes hscoped.context n span
  exact ⟨_, _, resolve_apply n span r, ⟨hscopes, hresolves.sound hscoped.context⟩, rfl, hname, h⟩

/-! ## Repetition -/

section

variable {S : List Token → β → Prop} {f : α → γ} {g : β → γ} {bs : List β}

theorem length_le_of_rows (hne : ∀ {ts b}, S ts b → ts ≠ []) (h : Grammar.Rows S ts bs) :
    bs.length ≤ ts.length := by
  induction h with
  | nil => exact Nat.le_refl _
  | cons h _ ih =>
    have hpos := List.length_pos_iff.mpr (hne h)
    rw [List.length_append, List.length_cons]
    omega

/-- A repeated step yields one result for each item of a row. An item asks that `B` holds of its
tokens and the one behind them, be that one of the next item or `t`. What matters of a result is
told by `f`, and `g` tells what it is to be. -/
theorem many {item : Parse (Option α)} {B : List Token → Token → Prop}
    (hitem : ∀ {ts b u vs r}, S ts b → B ts u → r.Faces (ts ++ u :: vs) rest →
      item.Finds r fun o r' => ∃ a, o = some a ∧ f a = g b ∧ r'.Faces (u :: vs) rest)
    (hstop : ∀ {r}, r.Faces (t :: us) rest → item.Finds r fun o r' => o = none ∧ r' = r)
    (hnext : ∀ {ts b vs c}, S ts b → S vs c → ∃ u ws, vs = u :: ws ∧ B ts u)
    (hlast : ∀ {vs ws b}, S ws b → vs ++ ws = ts → B ws t) (hbs : Grammar.Rows S ts bs)
    (h : r.Faces (ts ++ t :: us) rest) :
    (Parse.many item).Finds r fun as r' => as.map f = bs.map g ∧ r'.Faces (t :: us) rest := by
  have hne {ts : List Token} {b : β} (hb : S ts b) : ts ≠ [] := by
    obtain ⟨u, ws, rfl, _⟩ := hnext hb hb
    exact List.cons_ne_nil u ws
  have hrounds {ts : List Token} {bs : List β} {r : Reader} (rounds : List Item)
      (hlast : ∀ {vs ws b}, S ws b → vs ++ ws = ts → B ws t) (hbs : Grammar.Rows S ts bs)
      (h : r.Faces (ts ++ t :: us) rest) (hlength : bs.length < rounds.length) :
      (manyFor item rounds).Finds r fun as r' =>
        as.map f = bs.map g ∧ r'.Faces (t :: us) rest := by
    induction rounds generalizing ts bs r with
    | nil => exact absurd hlength (Nat.not_lt_zero _)
    | cons _ rounds ih =>
      cases hbs with
      | nil =>
        refine (hstop h).bind fun o r' ho => ?_
        obtain ⟨rfl, rfl⟩ := ho
        exact .pure ⟨rfl, h⟩
      | @cons ts ts' b bs hb hbs =>
        obtain ⟨u, vs, hahead, hu⟩ : ∃ u vs, ts' ++ t :: us = u :: vs ∧ B ts u := by
          cases hbs with
          | nil => exact ⟨t, us, rfl, hlast hb ((List.nil_append _).trans (List.append_nil ts).symm)⟩
          | cons hc _ =>
            obtain ⟨u, ws, rfl, hu⟩ := hnext hb hc
            exact ⟨u, _, rfl, hu⟩
        rw [List.append_assoc, hahead] at h
        refine (hitem hb hu h).bind fun o r₁ ho => ?_
        obtain ⟨a, rfl, ha, h₁⟩ := ho
        rw [← hahead] at h₁
        have hlast {vs ws : List Token} {b : β} (hb : S ws b) (hts : vs ++ ws = ts') : B ws t :=
          hlast hb ((List.append_assoc ts vs ws).trans (congrArg (ts ++ ·) hts))
        refine (ih hlast hbs h₁ (Nat.lt_of_succ_lt_succ hlength)).bind fun as r₂ h₂ => .pure ?_
        exact ⟨by rw [List.map_cons, List.map_cons, ha, h₂.1], h₂.2⟩
  refine .get (hrounds r.remaining hlast hbs h ?_)
  have hle := length_le_of_rows hne hbs
  have hlength := h.length_le
  rw [List.length_append, List.length_cons] at hlength
  omega

/-- Items with commas between them, up to a token that is none. -/
theorem commaSeparated {item : Parse α}
    (hitem : ∀ {ts b u vs r}, S ts b → t.EndsItem u → r.Faces (ts ++ u :: vs) rest →
      item.Finds r fun a r' => f a = g b ∧ r'.Faces (u :: vs) rest)
    (ht : t.kind ≠ .symbol .comma) {first : List Token × β} {items : List (List Token × β)}
    (hts : Grammar.Commas ((first :: items).map Prod.fst) ts)
    (hitems : ∀ i ∈ first :: items, S i.1 i.2) (h : r.Faces (ts ++ t :: us) rest) :
    (Parse.commaSeparated item).Finds r fun as r' =>
      as.map f = (first :: items).map (g ∘ Prod.snd) ∧ r'.Faces (t :: us) rest := by
  obtain ⟨hfirst, hitems⟩ := List.forall_mem_cons.mp hitems
  obtain ⟨vs, rfl, hrows⟩ := hts.exists_rows hitems
  obtain ⟨u, ws, hahead, hu⟩ : ∃ u ws, vs ++ t :: us = u :: ws ∧ t.EndsItem u := by
    cases hrows with
    | nil => exact ⟨t, us, rfl, .inr rfl⟩
    | cons hi _ =>
      obtain ⟨comma, rfl, hcomma, _⟩ := hi
      exact ⟨comma, _, rfl, .inl hcomma⟩
  rw [List.append_assoc, hahead] at h
  refine (hitem hfirst hu h).bind fun a r₁ ha => ?_
  rw [← hahead] at ha
  refine (many (B := fun _ => t.EndsItem) (f := f) (g := g ∘ Prod.snd) ?_ ?_ ?_ (fun _ _ => .inr rfl) hrows
    ha.2).bind fun as r₂ h₂ => .pure ?_
  · rintro _ i u vs r ⟨comma, rfl, hcomma, hi⟩ hu h
    refine (acceptKind h hcomma (by simp)).bind fun b r₁ hb => ?_
    obtain ⟨rfl, h₁⟩ := hb
    exact (hitem hi hu h₁).bind fun a r₂ ha => .pure ⟨a, rfl, ha⟩
  · intro r h
    refine (acceptKind_other h ht).bind fun b r₁ hb => ?_
    obtain ⟨rfl, rfl⟩ := hb
    exact .pure ⟨rfl, rfl⟩
  · rintro _ _ _ i _ ⟨comma, rfl, hcomma, _⟩
    exact ⟨comma, i.1, rfl, .inl hcomma⟩
  · exact ⟨by rw [List.map_cons, List.map_cons, ha.1, h₂.1]; rfl, h₂.2⟩

end

end Finds

end Parse

/-! ## The symbols of operators -/

theorem UnaryOp.before_of_symbol {k : Token.Kind} {op : UnaryOp} (h : k = .symbol op.symbol) :
    k.unaryBefore? = some op := by
  subst h
  cases op <;> rfl

theorem UnaryOp.behind_of_symbol {k : Token.Kind} {op : UnaryOp}
    (hop : op = .increment ∨ op = .decrement) (h : k = .symbol op.symbol) :
    k.unaryBehind? = some op := by
  subst h
  rcases hop with rfl | rfl <;> rfl

theorem BinaryOp.binary_of_symbol {k : Token.Kind} {op : BinaryOp} (h : k = .symbol op.symbol) :
    k.binary? = some op := by
  subst h
  cases op <;> decide

namespace Expr

/-! ## Shapes of what is put together -/

theorem shape_withOperatorsBefore {x y : Expr} {ops ops' : List (UnaryOp × Span)}
    (h : x.shape = y.shape) (hops : ops.map Prod.fst = ops'.map Prod.fst) :
    (x.withOperatorsBefore ops).shape = (y.withOperatorsBefore ops').shape := by
  induction ops generalizing ops' with
  | nil =>
    obtain rfl : ops' = [] := List.map_eq_nil_iff.mp hops.symm
    exact h
  | cons op ops ih =>
    cases ops' with
    | nil => cases hops
    | cons op' ops' =>
      obtain ⟨hop, hops⟩ := List.cons.inj hops
      exact congrArg₂ (unaryBefore Span.none) hop (ih hops)

/-- A suffix without spans and without numbers of variables. -/
def Suffix.shape : Suffix → Suffix
  | .operator op _ => .operator op Span.none
  | .subscript i _ => .subscript i.shape Span.none

theorem shape_withSuffixes {x y : Expr} {ss ss' : List Suffix} (h : x.shape = y.shape)
    (hss : ss.map Suffix.shape = ss'.map Suffix.shape) :
    (ss.foldl withSuffix x).shape = (ss'.foldl withSuffix y).shape := by
  induction ss generalizing x y ss' with
  | nil =>
    obtain rfl : ss' = [] := List.map_eq_nil_iff.mp hss.symm
    exact h
  | cons s ss ih =>
    cases ss' with
    | nil => cases hss
    | cons s' ss' =>
      obtain ⟨hs, hss⟩ := List.cons.inj hss
      have hwith : (x.withSuffix s).shape = (y.withSuffix s').shape := by
        cases s <;> cases s' <;> simp only [Suffix.shape, reduceCtorEq] at hs
        · obtain ⟨rfl, _⟩ := Suffix.operator.inj hs
          exact congrArg (unaryBehind Span.none _) h
        · exact congrArg₂ (Expr.subscript Span.none) h (Suffix.subscript.inj hs).1
      exact ih (y := y.withSuffix s') hwith hss

theorem shape_join {x y l r : Expr} {op op' : BinaryOp} (hop : op = op') (hl : x.shape = l.shape)
    (hr : y.shape = r.shape) : (x.join op y).shape = (l.join op' r).shape := by
  subst hop
  exact congrArg₂ (binary Span.none op) hl hr

theorem shape_joinLeft {x y : Expr} {xs ys : List (BinaryOp × Expr)} (h : x.shape = y.shape)
    (hs : xs.map (Prod.map id shape) = ys.map (Prod.map id shape)) :
    (x.joinLeft xs).shape = (y.joinLeft ys).shape := by
  induction xs generalizing x y ys with
  | nil =>
    obtain rfl : ys = [] := List.map_eq_nil_iff.mp hs.symm
    exact h
  | cons next xs ih =>
    cases ys with
    | nil => cases hs
    | cons next' ys =>
      obtain ⟨hnext, hs⟩ := List.cons.inj hs
      obtain ⟨hop, hy⟩ := Prod.mk.inj hnext
      have hjoin : (x.join next.1 next.2).shape = (y.join next'.1 next'.2).shape :=
        shape_join hop h hy
      exact ih (y := y.join next'.1 next'.2) hjoin hs

theorem shape_joinRight {x y : Expr} {xs ys : List (BinaryOp × Expr)} (h : x.shape = y.shape)
    (hs : xs.map (Prod.map id shape) = ys.map (Prod.map id shape)) :
    (x.joinRight xs).shape = (y.joinRight ys).shape := by
  induction xs generalizing x y ys with
  | nil =>
    obtain rfl : ys = [] := List.map_eq_nil_iff.mp hs.symm
    exact h
  | cons next xs ih =>
    cases ys with
    | nil => cases hs
    | cons next' ys =>
      obtain ⟨hnext, hs⟩ := List.cons.inj hs
      obtain ⟨hop, hy⟩ := Prod.mk.inj hnext
      exact shape_join hop h (ih hy hs)

end Expr

namespace Grammar

open Parse LoopNest.Expr

/-! ## Expressions -/

/-- An expression with these tokens that binds at least as tightly as the level does not go on with
that token. -/
structure Stops (level : Nat) (ts : List Token) (t : Token) : Prop where
  behind : t.kind.unaryBehind? = none
  bracket : t.kind ≠ .symbol .leftBracket
  paren : ∀ u ∈ ts.getLast?, u.kind = .identifier → t.kind ≠ .symbol .leftParen
  binary : ∀ op ∈ t.kind.binary?, op.precedence < level

namespace Stops

variable {level level' : Nat} {ts us : List Token} {t u : Token}

theorem mono (h : Stops level ts t) (hle : level ≤ level') : Stops level' ts t :=
  ⟨h.behind, h.bracket, h.paren, fun op hop => Nat.lt_of_lt_of_le (h.binary op hop) hle⟩

/-- Only the last token matters. -/
theorem of_append (h : Stops level (us ++ ts) t) : Stops level ts t := by
  refine ⟨h.behind, h.bracket, fun u hu => h.paren u ?_, h.binary⟩
  rw [List.getLast?_append, hu]
  rfl

theorem of_binary {op : BinaryOp} (ht : t.kind = .symbol op.symbol) (ts : List Token) :
    Stops (op.precedence + 1) ts t := by
  refine ⟨?_, ?_, fun _ _ _ => ?_, fun op' hop => ?_⟩
  · rw [ht]
    cases op <;> rfl
  · rw [ht]
    cases op <;> decide
  · rw [ht]
    cases op <;> decide
  · rw [BinaryOp.binary_of_symbol ht] at hop
    obtain rfl := Option.some.inj hop
    exact Nat.lt_succ_self _

theorem of_closing {s : Symbol} (hs : s ∈ [Symbol.rightParen, .rightBracket, .comma, .semicolon])
    (ht : t.kind = .symbol s) (ts : List Token) : Stops 1 ts t := by
  have hall : ∀ s ∈ [Symbol.rightParen, .rightBracket, .comma, .semicolon],
      (Token.Kind.symbol s).unaryBehind? = none ∧ (Token.Kind.symbol s).binary? = none ∧
        s ≠ .leftBracket ∧ s ≠ .leftParen := by
    decide
  obtain ⟨hbehind, hbinary, hbracket, hparen⟩ := hall s hs
  refine ⟨ht ▸ hbehind, by simpa [ht] using hbracket, fun _ _ _ => by simpa [ht] using hparen, ?_⟩
  intro op hop
  rw [ht, hbinary] at hop
  cases hop

end Stops

/-- What does not go on stops at every level. -/
theorem stops_of_not_continues {ts : List Token} {t : Token} (h : ¬ Continues ts t) :
    Stops 1 ts t := by
  simp only [Continues, not_or] at h
  obtain ⟨hbinary, hplus, hminus, hbracket, hparen⟩ := h
  refine ⟨?_, hbracket, fun u hu hkind ht => hparen ⟨ht, u, hu, hkind⟩, fun op hop => ?_⟩
  · cases hbehind : t.kind.unaryBehind? with
    | none => rfl
    | some op =>
      obtain ⟨hop, hkind⟩ := UnaryOp.symbol_of_behind hbehind
      rcases hop with rfl | rfl
      · exact absurd hkind hplus
      · exact absurd hkind hminus
  · exact absurd ⟨op, BinaryOp.symbol_of_binary hop⟩ hbinary

/-- The reader finds the expressions of a level that have at most `n` tokens. -/
def FindsAt (reader : Parse Expr) (level n : Nat) : Prop :=
  ∀ {ts x t us rest r}, Derives level ts x → IntegersFit ts → ts.length ≤ n → Stops level ts t →
    r.Faces (ts ++ t :: us) rest →
    reader.Finds r fun x' r' => x'.shape = x.shape ∧ r'.Faces (t :: us) rest

theorem literal_finds {r : Reader} {t u : Token} {us : List Token} {rest : List Item}
    {value : Literal} {found : Option Literal} (hfound : found = some value)
    (cause : Problem.Cause) (s span : Span) (h : r.Faces (t :: u :: us) rest) :
    (Grammar.literal found cause span).Finds r fun x' r' =>
      x'.shape = (Expr.literal s value).shape ∧ r'.Faces (u :: us) rest := by
  subst hfound
  exact (Finds.advance h (by simp)).bind fun _ _ h₁ => .pure ⟨rfl, h₁⟩

section

variable {inner : Parse Expr} {n : Nat} (h : FindsAt inner 1 n)
include h

theorem arguments_finds {args : List (List Token × Expr)} {ts us : List Token} {t : Token}
    {rest : List Item} {r : Reader} (hts : Commas (args.map Prod.fst) ts)
    (hargs : ∀ a ∈ args, Derives 1 a.1 a.2) (hfit : IntegersFit ts) (hlength : ts.length ≤ n)
    (ht : t.kind = .symbol .rightParen) (hfaces : r.Faces (ts ++ t :: us) rest) :
    (arguments inner).Finds r fun xs r' =>
      xs.map shape = (args.map Prod.snd).map shape ∧ r'.Faces (t :: us) rest := by
  refine .get ?_
  cases args with
  | nil =>
    cases hts
    have hfaces : r.Faces (t :: us) rest := hfaces
    rw [if_pos (by rw [Reader.seesSymbol, Reader.sees, hfaces.current, ht]; rfl)]
    exact .pure ⟨rfl, hfaces⟩
  | cons first args =>
    obtain ⟨u, vs, hu, _, hparen⟩ := (hargs first List.mem_cons_self).exists_cons
    have hcurrent : r.current = u := by
      obtain ⟨ws, rfl, _⟩ := hts.exists_rows (S := fun _ _ => True) (by simp)
      rw [hu, List.append_assoc, List.cons_append] at hfaces
      exact hfaces.current
    rw [if_neg (by rw [Reader.seesSymbol, Reader.sees, hcurrent]; simpa using hparen)]
    rw [List.map_map]
    refine Finds.commaSeparated (S := fun ts x => Derives 1 ts x ∧ IntegersFit ts ∧ ts.length ≤ n)
      (fun {ts x u vs r} hx hu hfaces => ?_) (by simp [ht]) hts (fun a ha => ?_) hfaces
    · refine h hx.1 hx.2.1 hx.2.2 ?_ hfaces
      rcases hu with hu | rfl
      · exact .of_closing (by simp) hu ts
      · exact .of_closing (by simp) ht ts
    · have hsub := hts.sublist (List.mem_map_of_mem (f := Prod.fst) ha)
      exact ⟨hargs a ha, hfit.mono hsub.subset, Nat.le_trans hsub.length_le hlength⟩

/-- The literals, names, calls and parentheses. -/
theorem primary_finds {ts us : List Token} {x : Expr} {t : Token} {rest : List Item} {r : Reader}
    (hx : Derives 10 ts x) (hfit : IntegersFit ts) (hlength : ts.length ≤ n + 1)
    (hparen : ∀ u ∈ ts.getLast?, u.kind = .identifier → t.kind ≠ .symbol .leftParen)
    (hfaces : r.Faces (ts ++ t :: us) rest) :
    (primary inner).Finds r fun x' r' => x'.shape = x.shape ∧ r'.Faces (t :: us) rest := by
  refine .get ?_
  dsimp only
  generalize hlevel : 10 = level at hx
  cases hx with
  | tighter hx =>
    have hle := hx.le_ten
    omega
  | @name v s id hv =>
    have hcurrent : r.current = v := hfaces.current
    simp only [hcurrent, hv]
    refine (Finds.advance hfaces (by simp)).bind fun _ r₁ h₁ => ?_
    refine (Finds.acceptKind_other h₁ (hparen v (by simp) hv)).bind fun b r₂ h₂ => ?_
    obtain ⟨rfl, rfl⟩ := h₂
    refine (Finds.resolve _ _ h₁).bind fun w r₃ h₃ => .pure ⟨?_, h₃.2⟩
    simp only [shape, relabel, VarRef.relabel, h₃.1]
  | @literal v s value hv =>
    have hcurrent : r.current = v := hfaces.current
    rw [hcurrent]
    unfold literalOf? at hv
    split at hv
    · next hkind =>
      obtain rfl := Option.some.inj hv
      simp only [hkind]
      refine literal_finds ?_ _ _ _ hfaces
      exact if_pos (hfit v List.mem_cons_self hkind)
    · next hkind =>
      simp only [hkind]
      exact literal_finds hv _ _ _ hfaces
    · next hkind =>
      obtain rfl := Option.some.inj hv
      simp only [hkind]
      exact literal_finds rfl _ _ _ hfaces
    · cases hv
  | @parentheses ts o c s x ho hx hc =>
    have hcurrent : r.current = o := hfaces.current
    simp only [hcurrent, ho]
    rw [List.cons_append, List.append_assoc] at hfaces
    refine (Finds.advance hfaces (by simp)).bind fun _ r₁ h₁ => ?_
    have hfit : IntegersFit ts := hfit.mono (by simp)
    have hlength : ts.length ≤ n := by
      simp only [List.length_cons, List.length_append] at hlength
      omega
    refine (h hx hfit hlength (.of_closing (by simp) hc ts) h₁).bind fun x' r₂ h₂ => ?_
    refine (Finds.expect .here h₂.2 hc (by simp)).bind fun _ r₃ h₃ => .get (.pure ⟨?_, h₃⟩)
    exact congrArg (Expr.parentheses Span.none) h₂.1
  | @call f o c s args ts hf ho hts hargs hc =>
    have hcurrent : r.current = f := hfaces.current
    simp only [hcurrent, hf]
    rw [List.cons_append, List.cons_append, List.append_assoc] at hfaces
    refine (Finds.advance hfaces (by simp)).bind fun _ r₁ h₁ => ?_
    refine (Finds.acceptKind h₁ ho (by simp)).bind fun b r₂ h₂ => ?_
    obtain ⟨rfl, h₂⟩ := h₂
    have hfit : IntegersFit ts := hfit.mono fun t ht => by simp [ht]
    have hlength : ts.length ≤ n := by
      simp only [List.length_cons, List.length_append] at hlength
      omega
    refine (arguments_finds h hts hargs hfit hlength hc h₂).bind fun args' r₃ h₃ => ?_
    refine (Finds.expect .arguments h₃.2 hc (by simp)).bind fun _ r₄ h₄ => .get (.pure ⟨?_, h₄⟩)
    simp only [shape, relabel, relabelAll_eq]
    exact congrArg (Expr.call Span.none f.lexeme) h₃.1
  | @binary _ _ _ _ op =>
    have hle := op.precedence_le
    omega
  | assignment => omega
  | before => omega
  | behind => omega
  | subscript => omega

/-- What stands behind a primary expression. -/
theorem suffix_finds {s : Suffix} {ts us : List Token} {t : Token} {rest : List Item} {r : Reader}
    (hs : DerivesSuffix ts s) (hfit : IntegersFit ts) (hlength : ts.length ≤ n + 1)
    (hfaces : r.Faces (ts ++ t :: us) rest) :
    (suffix inner).Finds r fun o r' =>
      ∃ s', o = some s' ∧ s'.shape = s.shape ∧ r'.Faces (t :: us) rest := by
  refine .get ?_
  cases hs with
  | @operator v stop op hop hv =>
    have hbehind : r.current.kind.unaryBehind? = some op := by
      rw [hfaces.current]
      exact UnaryOp.behind_of_symbol hop hv
    simp only [hbehind]
    exact (Finds.advance hfaces (by simp)).bind fun _ r₁ h₁ => .get (.pure ⟨_, rfl, rfl, h₁⟩)
  | @subscript ts o c stop i ho hi hc =>
    have hbehind : r.current.kind.unaryBehind? = none := by
      rw [hfaces.current, ho]
      rfl
    simp only [hbehind]
    rw [List.cons_append, List.append_assoc] at hfaces
    refine (Finds.acceptKind hfaces ho (by simp)).bind fun b r₁ h₁ => ?_
    obtain ⟨rfl, h₁⟩ := h₁
    have hfit : IntegersFit ts := hfit.mono (by simp)
    have hlength : ts.length ≤ n := by
      simp only [List.length_cons, List.length_append] at hlength
      omega
    refine (h hi hfit hlength (.of_closing (by simp) hc ts) h₁).bind fun i' r₂ h₂ => ?_
    refine (Finds.expect .here h₂.2 hc (by simp)).bind fun _ r₃ h₃ => .get (.pure ⟨_, rfl, ?_, h₃⟩)
    exact congrArg (Suffix.subscript · Span.none) h₂.1

theorem suffixed_finds : FindsAt (suffixed inner) 9 (n + 1) := by
  intro ts x t us rest r hx hfit hlength ht hfaces
  obtain ⟨vs, ws, p, ss, rfl, hp, hss, hshape⟩ := hx.exists_suffixes
  have hsuffixes : Rows (fun us s => DerivesSuffix us s ∧ IntegersFit us ∧ us.length ≤ n + 1)
      ws ss := by
    refine hss.within.mono fun us s hs => ?_
    have hsub := hs.2.trans (List.sublist_append_right vs ws)
    exact ⟨hs.1, hfit.mono hsub.subset, Nat.le_trans hsub.length_le hlength⟩
  -- a parenthesis makes a call of a name only right behind it
  obtain ⟨u, us', hahead, hparen⟩ : ∃ u us', ws ++ t :: us = u :: us' ∧
      ∀ v ∈ vs.getLast?, v.kind = .identifier → u.kind ≠ .symbol .leftParen := by
    cases hss with
    | nil =>
      rw [List.append_nil] at ht
      exact ⟨t, us, rfl, ht.paren⟩
    | cons hs _ =>
      cases hs with
      | @operator v _ op _ hv =>
        refine ⟨v, _, rfl, fun _ _ _ => ?_⟩
        rw [hv]
        cases op <;> decide
      | @subscript _ o _ _ _ ho _ _ => exact ⟨o, _, rfl, fun _ _ _ => by simp [ho]⟩
  have hlength' : vs.length ≤ n + 1 := by
    rw [List.length_append] at hlength
    omega
  rw [List.append_assoc, hahead] at hfaces
  refine (primary_finds h hp (hfit.mono (by simp)) hlength' hparen hfaces).bind fun p' r₁ h₁ => ?_
  rw [← hahead] at h₁
  refine (Finds.many (B := fun _ _ => True) (f := Suffix.shape) (g := Suffix.shape)
    (fun hs _ hfaces => suffix_finds h hs.1 hs.2.1 hs.2.2 hfaces) ?_ ?_ (fun _ _ => trivial)
    hsuffixes h₁.2).bind fun ss' r₂ h₂ => .pure ⟨?_, h₂.2⟩
  · intro r hfaces
    refine .get ?_
    simp only [hfaces.current, ht.behind]
    refine (Finds.acceptKind_other hfaces ht.bracket).bind fun b r₁ hb => ?_
    obtain ⟨rfl, rfl⟩ := hb
    exact .pure ⟨rfl, rfl⟩
  · rintro _ _ _ _ _ ⟨hs, _⟩
    cases hs <;> exact ⟨_, _, rfl, trivial⟩
  · rw [hshape]
    exact shape_withSuffixes h₁.1 h₂.1

theorem unary_finds : FindsAt (unary inner) 8 (n + 1) := by
  intro ts x t us rest r hx hfit hlength ht hfaces
  obtain ⟨vs, ws, ops, y, rfl, hops, hy, hshape⟩ := hx.exists_operatorsBefore
  obtain ⟨u, ws', hws, hplain, _⟩ := hy.exists_cons
  have hplain : u.kind.unaryBefore? = none := hplain (Nat.le_refl 9)
  have hfaces₁ : r.Faces (vs ++ u :: (ws' ++ t :: us)) rest := by
    simpa [hws] using hfaces
  refine (Finds.many (B := fun _ _ => True) (f := Prod.fst) (g := Prod.fst) ?_ ?_ ?_
    (fun _ _ => trivial) hops hfaces₁).bind fun ops' r₁ h₁ => ?_
  · rintro _ op u vs r ⟨v, rfl, hv⟩ _ hfaces
    refine .get ?_
    have hbefore : r.current.kind.unaryBefore? = some op.1 := by
      rw [hfaces.current]
      exact UnaryOp.before_of_symbol hv
    simp only [hbefore]
    exact (Finds.advance hfaces (by simp)).bind fun _ r₁ h₁ => .pure ⟨_, rfl, rfl, h₁⟩
  · intro r hfaces
    refine .get ?_
    simp only [hfaces.current, hplain]
    exact .pure ⟨rfl, rfl⟩
  · rintro _ _ _ _ _ ⟨v, rfl, _⟩
    exact ⟨v, [], rfl, trivial⟩
  · have hfaces₂ : r₁.Faces (ws ++ t :: us) rest := by
      simpa [hws] using h₁.2
    have hlength : ws.length ≤ n + 1 := by
      rw [List.length_append] at hlength
      omega
    have ht : Stops 9 ws t := ht.of_append.mono (by decide)
    refine (suffixed_finds h hy (hfit.mono (by simp)) hlength ht hfaces₂).bind fun y' r₂ h₂ =>
      .pure ⟨?_, h₂.2⟩
    rw [hshape]
    exact shape_withOperatorsBefore h₂.1 h₁.1

end

/-- Operators of a level, each with an operand of the next one. -/
theorem operatorsAndOperands_finds {operand : Parse Expr} {level n : Nat}
    (h : FindsAt operand (level + 1) n) {rest : List (BinaryOp × Expr)} {ts us : List Token}
    {t : Token} {items : List Item} {r : Reader} (hrest : Rows (DerivesOperand level) ts rest)
    (hfit : IntegersFit ts) (hlength : ts.length ≤ n) (ht : Stops level ts t)
    (hfaces : r.Faces (ts ++ t :: us) items) :
    (Parse.many (operatorAndOperand level operand)).Finds r fun rest' r' =>
      rest'.map (Prod.map id shape) = rest.map (Prod.map id shape) ∧ r'.Faces (t :: us) items := by
  refine Finds.many (S := fun us next => DerivesOperand level us next ∧ us.Sublist ts)
    (B := fun us u => Stops (level + 1) us u) ?_ ?_ ?_ ?_ hrest.within hfaces
  · rintro _ next u ws r ⟨⟨v, vs, rfl, hop, hv, hy⟩, hsub⟩ hu hfaces
    refine .get ?_
    have hkind : r.current.kind.binaryAt? level = some next.1 := by
      rw [hfaces.current, Token.Kind.binaryAt?, BinaryOp.binary_of_symbol hv]
      simp [hop]
    simp only [hkind]
    refine (Finds.advance hfaces (by simp)).bind fun _ r₁ h₁ => ?_
    have hsub := (List.sublist_cons_self v vs).trans hsub
    have hstops : Stops (level + 1) ([v] ++ vs) u := hu
    refine (h hy (hfit.mono hsub.subset) (Nat.le_trans hsub.length_le hlength)
      hstops.of_append h₁).bind fun y' r₂ h₂ => .pure ?_
    exact ⟨_, rfl, by simp [Prod.map, h₂.1], h₂.2⟩
  · intro r hfaces
    refine .get ?_
    have hkind : r.current.kind.binaryAt? level = none := by
      rw [hfaces.current, Token.Kind.binaryAt?, Option.filter_eq_none_iff]
      intro op hop hprecedence
      have hlt := ht.binary op hop
      have heq : op.precedence = level := by simpa using hprecedence
      omega
    rw [hkind]
    exact .pure ⟨rfl, rfl⟩
  · rintro ts' _ _ next _ ⟨⟨v, vs, rfl, hop, hv, _⟩, _⟩
    exact ⟨v, vs, rfl, hop ▸ Stops.of_binary hv ts'⟩
  · rintro vs ws next ⟨⟨v, ws', rfl, _⟩, _⟩ rfl
    exact ht.of_append.mono (Nat.le_succ level)

/-- What stands behind the first operand does not belong to it. -/
theorem stops_ahead {level : Nat} {us vs : List Token} {rest : List (BinaryOp × Expr)}
    {t : Token} (ws : List Token) (hrest : Rows (DerivesOperand level) vs rest)
    (ht : Stops level (us ++ vs) t) :
    ∃ u ws', vs ++ t :: ws = u :: ws' ∧ Stops (level + 1) us u := by
  cases hrest with
  | nil =>
    rw [List.append_nil] at ht
    exact ⟨t, ws, rfl, ht.mono (Nat.le_succ level)⟩
  | cons hnext _ =>
    obtain ⟨v, vs, rfl, hop, hv, _⟩ := hnext
    exact ⟨v, _, rfl, hop ▸ Stops.of_binary hv us⟩

/-- A first operand with the operators and operands behind it, however they are joined. -/
theorem joined_finds {operand : Parse Expr} {level n : Nat} (h : FindsAt operand (level + 1) n)
    {joined : Expr → List (BinaryOp × Expr) → Expr}
    (hjoined : ∀ {x y xs ys}, x.shape = y.shape →
      xs.map (Prod.map id shape) = ys.map (Prod.map id shape) →
      (joined x xs).shape = (joined y ys).shape)
    {us vs ws : List Token} {first : Expr} {rest : List (BinaryOp × Expr)} {t : Token}
    {items : List Item} {r : Reader} (hfirst : Derives (level + 1) us first)
    (hrest : Rows (DerivesOperand level) vs rest) (hfit : IntegersFit (us ++ vs))
    (hlength : (us ++ vs).length ≤ n) (ht : Stops level (us ++ vs) t)
    (hfaces : r.Faces (us ++ vs ++ t :: ws) items) :
    Parse.Finds (do
        let first ← operand
        return joined first (← Parse.many (operatorAndOperand level operand))) r fun x' r' =>
      x'.shape = (joined first rest).shape ∧ r'.Faces (t :: ws) items := by
  obtain ⟨u, ws', hahead, hu⟩ := stops_ahead ws hrest ht
  obtain ⟨hfit₁, hfit₂⟩ := IntegersFit.append_iff.mp hfit
  rw [List.length_append] at hlength
  rw [List.append_assoc, hahead] at hfaces
  refine (h hfirst hfit₁ (by omega) hu hfaces).bind fun first' r₁ h₁ => ?_
  rw [← hahead] at h₁
  refine (operatorsAndOperands_finds h hrest hfit₂ (by omega) ht.of_append h₁.2).bind
    fun rest' r₂ h₂ => .pure ⟨?_, h₂.2⟩
  exact hjoined h₁.1 h₂.1

section

variable {inner : Parse Expr} {n : Nat} (h : FindsAt inner 1 n)
include h

theorem operands_finds {k : Nat} (hk : k ≤ 6) : FindsAt (operands inner k) (8 - k) (n + 1) := by
  induction k with
  | zero => exact unary_finds h
  | succ k ih =>
    intro ts x t us items r hx hfit hlength ht hfaces
    have hlevel : 8 - (k + 1) = 7 - k := by omega
    have hnext : 8 - k = 7 - k + 1 := by omega
    rw [hlevel] at hx ht
    have hoperand : FindsAt (operands inner k) (7 - k + 1) (n + 1) := hnext ▸ ih (by omega)
    obtain ⟨vs, ws, first, rest, rfl, hfirst, hrest, hshape⟩ :=
      hx.exists_operands (by omega) (by omega)
    rw [hshape]
    exact joined_finds hoperand shape_joinLeft hfirst hrest hfit hlength ht hfaces

theorem assignment_finds : FindsAt (assignment inner) 1 (n + 1) := by
  intro ts x t us items r hx hfit hlength ht hfaces
  have hoperand : FindsAt (operands inner 6) (1 + 1) (n + 1) := operands_finds h (Nat.le_refl 6)
  obtain ⟨vs, ws, first, rest, rfl, hfirst, hrest, hshape⟩ := hx.exists_assignments
  rw [hshape]
  exact joined_finds hoperand shape_joinRight hfirst hrest hfit hlength ht hfaces

end

/-- Where an expression lies ahead, and a token behind it that it does not go on with, it is read up
to there. -/
theorem expression_finds {ts us : List Token} {x : Expr} {t : Token} {rest : List Item}
    {r : Reader} (hx : Derives 1 ts x) (hfit : IntegersFit ts) (ht : Stops 1 ts t)
    (hfaces : r.Faces (ts ++ t :: us) rest) :
    expression.Finds r fun x' r' => x'.shape = x.shape ∧ r'.Faces (t :: us) rest := by
  have hrounds (rounds : List Item) : FindsAt (expressionFor rounds) 1 rounds.length := by
    induction rounds with
    | nil =>
      intro ts x t us items r hx _ hlength
      exact absurd (List.eq_nil_of_length_eq_zero (Nat.le_zero.mp hlength)) hx.ne_nil
    | cons _ rounds ih => exact assignment_finds ih
  have hlength := hfaces.length_le
  rw [List.length_append] at hlength
  exact .get (hrounds r.remaining hx hfit (by omega) ht hfaces)

end Grammar

end LoopNest
