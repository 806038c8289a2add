import LoopNest.Proofs.Grammar.NoErrorLost
import LoopNest.Proofs.Grammar.ReadBack
import LoopNest.Proofs.Token.Slice
import Mathlib.Data.List.Infix

/-!
# The spans of a program

* `Grammar.Derives.respelled`: a derivation holds of any tokens with the same words.
* `Grammar.isReadFrom_slice`: the part of a source in the span of an expression is the expression.
* `Program.spans_exact`: the spans of all nodes of a program.
-/

namespace LoopNest

namespace Grammar

open LoopNest.Expr

/-! ## Other tokens with the same words -/

theorem literalOf?_of_word {t u : Token} (h : u.word = t.word) : literalOf? u = literalOf? t := by
  have hkind : u.kind = t.kind := congrArg Word.kind h
  have hlexeme : u.lexeme = t.lexeme := congrArg Word.lexeme h
  rw [literalOf?, literalOf?, hkind, hlexeme]

theorem IntegersFit.respelled {ts us : List Token} (h : IntegersFit ts)
    (hus : us.map Token.word = ts.map Token.word) : IntegersFit us := by
  intro u hu hkind
  have hmem : u.word ∈ ts.map Token.word := hus ▸ List.mem_map_of_mem hu
  obtain ⟨t, ht, hword⟩ := List.mem_map.mp hmem
  have hkind' : t.kind = u.kind := congrArg Word.kind hword
  have hlexeme : t.lexeme = u.lexeme := congrArg Word.lexeme hword
  exact hlexeme ▸ h t ht (hkind'.trans hkind)

/-- Tokens with the words of two rows are two rows. -/
theorem exists_append_of_words {us ts ts' : List Token}
    (h : us.map Token.word = (ts ++ ts').map Token.word) :
    ∃ vs vs', us = vs ++ vs' ∧ vs.map Token.word = ts.map Token.word ∧
      vs'.map Token.word = ts'.map Token.word := by
  rw [List.map_append] at h
  exact List.map_eq_append_iff.mp h

theorem exists_cons_of_words {us ts : List Token} {t : Token}
    (h : us.map Token.word = (t :: ts).map Token.word) :
    ∃ v vs, us = v :: vs ∧ v.kind = t.kind ∧ v.lexeme = t.lexeme ∧
      vs.map Token.word = ts.map Token.word := by
  obtain ⟨v, vs, rfl, hv, hvs⟩ := List.map_eq_cons_iff.mp h
  exact ⟨v, vs, rfl, congrArg Word.kind hv, congrArg Word.lexeme hv, hvs⟩

/-- The words of items with commas between them. -/
theorem Commas.respelled {args : List (List Token × Expr)} {ts us : List Token}
    (h : Commas (args.map Prod.fst) ts) (hus : us.map Token.word = ts.map Token.word)
    (hargs : ∀ a ∈ args, ∀ vs : List Token, vs.map Token.word = a.1.map Token.word →
      ∃ y, Derives 1 vs y ∧ y.shape = a.2.shape) :
    ∃ args' : List (List Token × Expr), Commas (args'.map Prod.fst) us ∧
      (∀ a ∈ args', Derives 1 a.1 a.2) ∧
      args'.map (fun a => a.2.shape) = args.map fun a => a.2.shape := by
  induction args generalizing ts us with
  | nil =>
    cases h
    obtain rfl := List.map_eq_nil_iff.mp hus
    exact ⟨[], .nil, List.forall_mem_nil _, rfl⟩
  | cons a args ih =>
    obtain ⟨ha, hargs⟩ := List.forall_mem_cons.mp hargs
    cases args with
    | nil =>
      cases h
      obtain ⟨y, hy, hshape⟩ := ha us hus
      exact ⟨[(us, y)], .single us, List.forall_mem_singleton.mpr hy, congrArg (fun z => [z]) hshape⟩
    | cons b args =>
      cases h with
      | cons hcomma h =>
        obtain ⟨vs, ws, rfl, hvs, hws⟩ := exists_append_of_words hus
        obtain ⟨c, ws, rfl, hc, -, hws⟩ := exists_cons_of_words hws
        obtain ⟨y, hy, hshape⟩ := ha vs hvs
        obtain ⟨args', hcommas, hderives, hshapes⟩ := ih h hws hargs
        obtain ⟨b', args', rfl⟩ : ∃ b' bs, args' = b' :: bs := by
          cases args' with
          | nil => cases hshapes
          | cons b' bs => exact ⟨b', bs, rfl⟩
        exact ⟨(vs, y) :: b' :: args', .cons (hc.trans hcomma) hcommas,
          List.forall_mem_cons.mpr ⟨hy, hderives⟩, congrArg₂ List.cons hshape hshapes⟩

/-- A derivation holds of any tokens with the same words, up to places and numbers of variables. -/
theorem Derives.respelled {level : Nat} {ts us : List Token} {x : Expr} (h : Derives level ts x)
    (hus : us.map Token.word = ts.map Token.word) : ∃ y, Derives level us y ∧ y.shape = x.shape := by
  induction h generalizing us with
  | tighter _ ih =>
    obtain ⟨y, hy, hshape⟩ := ih hus
    exact ⟨y, hy.tighter, hshape⟩
  | @assignment _ _ _ s op _ _ hop ht _ _ ihl ihr =>
    obtain ⟨vs, ws, rfl, hvs, hws⟩ := exists_append_of_words hus
    obtain ⟨v, ws, rfl, hv, -, hws⟩ := exists_cons_of_words hws
    obtain ⟨l, hl, hlshape⟩ := ihl hvs
    obtain ⟨r, hr, hrshape⟩ := ihr hws
    exact ⟨.binary s op l r, .assignment hop (hv.trans ht) hl hr,
      congrArg₂ (Expr.binary Span.none op) hlshape hrshape⟩
  | @binary _ _ _ s op _ _ hop ht _ _ ihl ihr =>
    obtain ⟨vs, ws, rfl, hvs, hws⟩ := exists_append_of_words hus
    obtain ⟨v, ws, rfl, hv, -, hws⟩ := exists_cons_of_words hws
    obtain ⟨l, hl, hlshape⟩ := ihl hvs
    obtain ⟨r, hr, hrshape⟩ := ihr hws
    exact ⟨.binary s op l r, .binary hop (hv.trans ht) hl hr,
      congrArg₂ (Expr.binary Span.none op) hlshape hrshape⟩
  | @before _ _ s op _ ht _ ih =>
    obtain ⟨v, vs, rfl, hv, -, hvs⟩ := exists_cons_of_words hus
    obtain ⟨y, hy, hshape⟩ := ih hvs
    exact ⟨.unaryBefore s op y, .before (hv.trans ht) hy,
      congrArg (Expr.unaryBefore Span.none op) hshape⟩
  | @behind _ _ s op _ _ hop ht ih =>
    obtain ⟨vs, ws, rfl, hvs, hws⟩ := exists_append_of_words hus
    obtain ⟨v, ws, rfl, hv, -, hws⟩ := exists_cons_of_words hws
    obtain rfl := List.map_eq_nil_iff.mp hws
    obtain ⟨y, hy, hshape⟩ := ih hvs
    exact ⟨.unaryBehind s op y, .behind hy hop (hv.trans ht),
      congrArg (Expr.unaryBehind Span.none op) hshape⟩
  | @subscript _ _ _ _ s _ _ _ ht _ hu iha ihi =>
    obtain ⟨vs, rest, rfl, hvs, hrest⟩ := exists_append_of_words hus
    obtain ⟨v, rest, rfl, hv, -, hrest⟩ := exists_cons_of_words hrest
    obtain ⟨ws, ws', rfl, hws, hws'⟩ := exists_append_of_words hrest
    obtain ⟨w, ws', rfl, hw, -, hws'⟩ := exists_cons_of_words hws'
    obtain rfl := List.map_eq_nil_iff.mp hws'
    obtain ⟨a, ha, hashape⟩ := iha hvs
    obtain ⟨i, hi, hishape⟩ := ihi hws
    exact ⟨.subscript s a i, .subscript ha (hv.trans ht) hi (hw.trans hu),
      congrArg₂ (Expr.subscript Span.none) hashape hishape⟩
  | @name _ s id ht =>
    obtain ⟨v, vs, rfl, hv, hlexeme, hvs⟩ := exists_cons_of_words hus
    obtain rfl := List.map_eq_nil_iff.mp hvs
    refine ⟨.var s ⟨id, v.lexeme⟩, .name (hv.trans ht), ?_⟩
    rw [hlexeme]
  | @literal t s value ht =>
    obtain ⟨v, vs, rfl, hv, hvs⟩ := List.map_eq_cons_iff.mp hus
    obtain rfl := List.map_eq_nil_iff.mp hvs
    exact ⟨.literal s value, .literal ((literalOf?_of_word hv).trans ht), rfl⟩
  | @parentheses _ _ _ s _ ht _ hu ih =>
    obtain ⟨v, rest, rfl, hv, -, hrest⟩ := exists_cons_of_words hus
    obtain ⟨vs, ws, rfl, hvs, hws⟩ := exists_append_of_words hrest
    obtain ⟨w, ws, rfl, hw, -, hws⟩ := exists_cons_of_words hws
    obtain rfl := List.map_eq_nil_iff.mp hws
    obtain ⟨y, hy, hshape⟩ := ih hvs
    exact ⟨.parentheses s y, .parentheses (hv.trans ht) hy (hw.trans hu),
      congrArg (Expr.parentheses Span.none) hshape⟩
  | @call f t u s args ts hf ht hts _ hu ih =>
    obtain ⟨g, rest, rfl, hg, hlexeme, hrest⟩ := exists_cons_of_words hus
    obtain ⟨v, rest, rfl, hv, -, hrest⟩ := exists_cons_of_words hrest
    obtain ⟨vs, ws, rfl, hvs, hws⟩ := exists_append_of_words hrest
    obtain ⟨w, ws, rfl, hw, -, hws⟩ := exists_cons_of_words hws
    obtain rfl := List.map_eq_nil_iff.mp hws
    obtain ⟨args', hcommas, hargs, hshapes⟩ := hts.respelled hvs fun a ha vs hvs => ih a ha hvs
    refine ⟨.call s g.lexeme (args'.map Prod.snd), .call (hg.trans hf) (hv.trans ht) hcommas hargs
      (hw.trans hu), ?_⟩
    show Expr.call Span.none g.lexeme (relabelAll _ _) = Expr.call Span.none f.lexeme (relabelAll _ _)
    rw [relabelAll_eq, relabelAll_eq, List.map_map, List.map_map, hlexeme]
    exact congrArg (Expr.call Span.none f.lexeme) hshapes

/-! ## Expressions alone -/

/-- The end of the file continues no expression. -/
theorem stops_of_end {ts : List Token} {t : Token} (ht : t.kind = .endOfFile) : Stops 1 ts t := by
  apply stops_of_not_continues
  rintro (⟨op, h⟩ | h | h | h | ⟨h, -⟩) <;> rw [ht] at h <;> cases h

/-- A text whose tokens derive an expression is that expression. -/
theorem isReadFrom_of_derives {text : String} {ts : List Token} {last : Token} {x : Expr}
    (h : tokenize text = .ok (ts ++ [last])) (hlast : last.kind = .endOfFile)
    (hx : Derives 1 ts x) (hfit : IntegersFit ts) : x.IsReadFrom text := by
  obtain ⟨t, us, rfl⟩ := List.exists_cons_of_ne_nil hx.ne_nil
  have hscan := scan_of_tokenize h
  rw [List.cons_append, List.map_cons] at hscan
  let r : Reader := { items := (us ++ [last]).map .token, current := t, previous := t }
  have hr : Reader.ofSource text = .ok r := by
    rw [Reader.ofSource, hscan]
  obtain ⟨hsound, -⟩ := Reader.sound_of_ofSource hr
  have hfaces : r.Faces (t :: us ++ last :: []) [] := by
    rw [Reader.Faces, List.append_nil]
    rfl
  obtain ⟨y, r', hrun, -, hproblems, hshape, hfaces'⟩ :=
    expression_finds hx hfit (stops_of_end hlast) hfaces hsound.scoped
  refine ⟨y, ?_, hshape⟩
  have hend : r'.atEnd = true := by
    rw [Reader.atEnd, hfaces'.current, Token.isEnd, hlast]
    rfl
  have hnone : r'.problems.isEmpty = true := by rw [hproblems]; rfl
  simp only [Expr.ofText?, hr, hrun, hnone, hend, Bool.and_self, if_true]

/-- An expression is read from the part of the source in its span. -/
theorem isReadFrom_slice {source : String} {ts : List Token} {last : Token}
    (h : tokenize source = .ok (ts ++ [last])) {us : List Token} (hus : us <:+: ts) {x : Expr}
    (hx : Derives 1 us x) (hfit : IntegersFit us) (hspan : x.span.Bounds us) :
    x.IsReadFrom (x.span.textIn source) := by
  have hend := not_isEnd_of_tokenize h
  obtain ⟨vs, ws, rfl⟩ := hus
  have hscan : scan source = (vs ++ (us ++ (ws ++ [last]))).map .token := by
    rw [scan_of_tokenize h]
    simp
  obtain ⟨us', last', hslice, hlast', hwords⟩ := tokenize_slice hscan
    (fun t ht => hend t (by simp [ht])) (fun t ht => hend t (by simp [ht])) hspan
  obtain ⟨y, hy, hshape⟩ := hx.respelled hwords
  obtain ⟨z, hz, hshape'⟩ := isReadFrom_of_derives hslice hlast' hy (hfit.respelled hwords)
  exact ⟨z, hz, hshape'.trans hshape⟩

end Grammar

/-! ## Programs -/

namespace Program

open Grammar

variable {source : String} {p : Program}

/-- What is laid in a source: the functions, and the nodes at the top. -/
theorem LaidIn.parts (h : LaidIn source p) : ∃ ts last,
    tokenize source = .ok (ts ++ [last]) ∧ Rows FunctionAt ts p.functions ∧
      Node.Embedded Node.Laid ts p.parts := by
  obtain ⟨ts, last, htokens, -, hrows⟩ := h
  have ho := tokenize_inOrder htokens
  refine ⟨ts, last, htokens, hrows.within.mono fun us f hf => ?_, ?_⟩
  · exact (hf.1.laid (ho.sublist hf.2)).1
  · exact .of_rows hrows fun us f hf hsub => (hf.laid (ho.sublist hsub)).2

/-- **Spans are exact and nested.** Take any source text that is a program. Its tokens are those of
the functions, one behind the other, each with its attributes in front of it. Every function, block,
statement, clause, declarator, attribute and expression of the program goes from the start of its
first token to the end of its last one. Its parts are written with some of these tokens, with their
own spans: they lie in it, in their order, and share no text, and attributes in front of a statement
stand there. A clause that is left out has the span of the token behind it, and stars in front of the
first name of a declaration stand with its type. The part of the source in the span of an expression
is that expression, up to places and the numbers of variables. -/
theorem spans_exact (h : read source = .ok p) :
    (∃ ts last, tokenize source = .ok (ts ++ [last]) ∧ Rows FunctionAt ts p.functions) ∧
      p.parts.Pairwise Node.Before ∧
      (∀ n, p.HasNode n → n.Exact (scan source)) ∧
      ∀ x, p.HasNode (.expression x) → x.IsReadFrom (x.span.textIn source) := by
  obtain ⟨ts, last, htokens, hrows, hparts⟩ := (laidIn_of_readStrict (readStrict_of_read h)).parts
  have ho := tokenize_inOrder htokens
  refine ⟨⟨ts, last, htokens, hrows⟩, hparts.before_of_laid ho, fun n hn => ?_, fun x hx => ?_⟩
  · obtain ⟨us, hus, hn⟩ := hn.laid hparts
    refine hn.exact (ho.sublist hus.sublist) ?_
    rw [scan_of_tokenize htokens, List.map_append]
    exact (hus.map _).trans (List.prefix_append _ _).isInfix
  · obtain ⟨us, hus, hx⟩ := hx.laid hparts
    obtain ⟨hderives, hfit⟩ := hx.written
    exact isReadFrom_slice htokens hus hderives hfit hx.span

/-- A loop with attributes in front of it and in its header, with clauses that are left out. -/
theorem spans_exact_loop :
    ∃ p, read "@f(1) void f(int n) \x7b @g for (int i = n, **p; ; ; @h(i)) - (i)[n]; \x7d" = .ok p ∧
      (∀ f ∈ p.functions, f.span.start.offset = 6 ∧ f.span.stop.offset = 68) ∧
      (∀ f ∈ p.functions, ∀ s ∈ f.body.statements, s.span.start.offset = 25) ∧
      (∃ ts last, tokenize
          "@f(1) void f(int n) \x7b @g for (int i = n, **p; ; ; @h(i)) - (i)[n]; \x7d" =
            .ok (ts ++ [last]) ∧ Rows FunctionAt ts p.functions) ∧
      p.parts.Pairwise Node.Before ∧
      (∀ n, p.HasNode n → n.Exact
        (scan "@f(1) void f(int n) \x7b @g for (int i = n, **p; ; ; @h(i)) - (i)[n]; \x7d")) ∧
      ∀ x, p.HasNode (.expression x) → x.IsReadFrom (x.span.textIn
        "@f(1) void f(int n) \x7b @g for (int i = n, **p; ; ; @h(i)) - (i)[n]; \x7d") := by
  have hread : anyOfBytes
      "@f(1) void f(int n) \x7b @g for (int i = n, **p; ; ; @h(i)) - (i)[n]; \x7d".toByteArray.data.toList
      (fun p => decide
        ((∀ f ∈ p.functions, f.span.start.offset = 6 ∧ f.span.stop.offset = 68) ∧
          ∀ f ∈ p.functions, ∀ s ∈ f.body.statements, s.span.start.offset = 25)) = true := by
    decide +kernel
  obtain ⟨p, hp, hspans⟩ := exists_of_read hread
  obtain ⟨hfunction, hstatement⟩ := of_decide_eq_true hspans
  exact ⟨p, hp, hfunction, hstatement, spans_exact hp⟩

/-- A star and a name in a row, and a declarator of a body with that name and nothing behind it. -/
theorem exists_starred (source : String) (t u : Token) (id : Nat) (s : Span)
    (ht : t.kind = .symbol .star) (hu : u.kind = .identifier)
    (htokens : Reader.anyOfBytes source.toByteArray.data.toList
      (fun r => decide ([Item.token t, Item.token u] <:+: r.remaining)) = true)
    (hdeclarator : anyOfBytes source.toByteArray.data.toList (fun p => p.functions.any fun f =>
      f.body.statements.any fun s' => match s' with
        | .declaration _ ds =>
          ds.any fun d => d.var == ⟨id, u.lexeme⟩ && d.value.isNone && d.span == s
        | _ => false) = true) :
    ∃ p d, read source = .ok p ∧ p.HasNode (.declarator d) ∧
      [t, u].map .token <:+: scan source ∧ DerivesDeclarator [t, u] d ∧ d.span = s := by
  obtain ⟨r, hr, htokens⟩ := Reader.exists_of_ofSource source htokens
  obtain ⟨p, hp, hdeclarator⟩ := exists_of_read hdeclarator
  obtain ⟨f, hf, h⟩ := List.any_eq_true.mp hdeclarator
  obtain ⟨s', hs', h⟩ := List.any_eq_true.mp h
  split at h
  next i ds =>
    obtain ⟨⟨⟨id', name⟩, value, span⟩, hd, h⟩ := List.any_eq_true.mp h
    simp only [Bool.and_eq_true, beq_iff_eq, Option.isNone_iff_eq_none, VarRef.mk.injEq] at h
    obtain ⟨⟨⟨rfl, rfl⟩, rfl⟩, rfl⟩ := h
    refine ⟨p, ⟨⟨id', u.lexeme⟩, none, span⟩, hp, ?_, ?_, ?_, rfl⟩
    · have hfunction : p.HasNode (.function f) :=
        .top (List.mem_flatMap.mpr ⟨f, hf, by simp⟩)
      have hblock : p.HasNode (.block f.body) := .inner hfunction (List.mem_singleton.mpr rfl)
      have hstatement : p.HasNode (.statement (.declaration i ds)) :=
        .inner hblock (List.mem_flatMap.mpr ⟨_, hs', by simp [Stmt.withAttributes]⟩)
      exact .inner hstatement (List.mem_map_of_mem hd)
    · rw [← Reader.remaining_ofSource hr]
      exact of_decide_eq_true htokens
    · exact .named ⟨rfl, List.forall_mem_singleton.mpr ht⟩ hu .nil .none
  next => cases h

/-- The first name of a declaration does not have the star in front of it in its span, though a
later name has. -/
theorem spans_exact_starred :
    (∃ p d t u, read "void f() \x7b int *x; \x7d" = .ok p ∧ p.HasNode (.declarator d) ∧
      [t, u].map .token <:+: scan "void f() \x7b int *x; \x7d" ∧ DerivesDeclarator [t, u] d ∧
      ¬ d.span.Bounds [t, u]) ∧
    ∃ p d t u, read "void f() \x7b int a, *x; \x7d" = .ok p ∧ p.HasNode (.declarator d) ∧
      [t, u].map .token <:+: scan "void f() \x7b int a, *x; \x7d" ∧ DerivesDeclarator [t, u] d ∧
      d.span.Bounds [t, u] := by
  constructor
  · let t : Token := ⟨.symbol .star, ⟨⟨1, 16, 15⟩, ⟨1, 17, 16⟩⟩, "*"⟩
    let u : Token := ⟨.identifier, ⟨⟨1, 17, 16⟩, ⟨1, 18, 17⟩⟩, "x"⟩
    obtain ⟨p, d, hp, hd, htokens, hderives, hspan⟩ :=
      exists_starred "void f() \x7b int *x; \x7d" t u 0 u.span rfl rfl
        (by decide +kernel) (by decide +kernel)
    refine ⟨p, d, t, u, hp, hd, htokens, hderives, fun hbounds => ?_⟩
    obtain ⟨t', ht', hstart⟩ := hbounds.first
    obtain rfl : t = t' := Option.some.inj ht'
    rw [hspan] at hstart
    cases hstart
  · let t : Token := ⟨.symbol .star, ⟨⟨1, 19, 18⟩, ⟨1, 20, 19⟩⟩, "*"⟩
    let u : Token := ⟨.identifier, ⟨⟨1, 20, 19⟩, ⟨1, 21, 20⟩⟩, "x"⟩
    obtain ⟨p, d, hp, hd, htokens, hderives, hspan⟩ :=
      exists_starred "void f() \x7b int a, *x; \x7d" t u 1
        ⟨t.span.start, u.span.stop⟩ rfl rfl (by decide +kernel) (by decide +kernel)
    refine ⟨p, d, t, u, hp, hd, htokens, hderives, ?_⟩
    rw [hspan]
    exact ⟨⟨t, rfl, rfl⟩, u, rfl, rfl⟩

end Program

end LoopNest
