import LoopNest.Proofs.Grammar.Nodes
import LoopNest.Proofs.Grammar.Rules

/-!
# How nodes are laid

A node that is put together from parts has the span of its tokens if these are in order and the parts
have theirs.

* `Grammar.LaidAt`, `Grammar.laidAt_rules`: every expression that is put together is laid.
* `Node.LaidDeclaration`, `Node.LaidHeader`, `Node.LaidStmt`, `Node.LaidFunction`: what is written
  with tokens and laid where these are in order.
* `Node.LaidRest.forLoop`, `Node.LaidStmt.marked`: a loop, and a statement behind its attributes.
-/

namespace LoopNest

open Token Grammar

namespace Node

variable {ts us vs : List Token} {t u : Token} {x y : Expr}

/-! ## Expressions -/

namespace Laid

theorem written {n : Node} (h : Laid ts n) : n.WrittenAs ts := by
  obtain ⟨hwritten, -, -⟩ := h
  exact hwritten

theorem span {n : Node} (h : Laid ts n) : n.span.Bounds ts := by
  obtain ⟨-, hspan, -⟩ := h
  exact hspan

theorem parts {n : Node} (h : Laid ts n) : Embedded Laid ts n.parts := by
  obtain ⟨-, -, hparts⟩ := h
  exact hparts

end Laid

end Node

namespace Grammar

open Node

variable {level : Nat} {ts us : List Token} {x : Expr}

/-- The tokens are an expression that is laid, if they are in order. Its whole numbers are not too
large. -/
structure LaidAt (level : Nat) (ts : List Token) (x : Expr) : Prop where
  derives : Derives level ts x
  fit : IntegersFit ts
  laid (ho : InOrder ts) : Laid ts (.expression x)

/-- An expression that binds tightly enough is laid if its span and its parts are right. -/
theorem LaidAt.of_parts (hderives : Derives level ts x) (hlevel : 1 ≤ level) (hfit : IntegersFit ts)
    (h : InOrder ts → x.span.Bounds ts ∧ Embedded Laid ts (x.children.map .expression)) :
    LaidAt level ts x := by
  refine ⟨hderives, hfit, fun ho => ?_⟩
  obtain ⟨hspan, hparts⟩ := h ho
  exact .intro ⟨hderives.mono hlevel, hfit⟩ hspan hparts

/-- Two operands and an operator between them. -/
theorem LaidAt.join {level left right : Nat} {t : Token} {op : BinaryOp} {l r : Expr}
    (hderives : Derives level (ts ++ t :: us) (l.join op r)) (hlevel : 1 ≤ level)
    (ht : t.kind = .symbol op.symbol) (hl : LaidAt left ts l) (hr : LaidAt right us r) :
    LaidAt level (ts ++ t :: us) (l.join op r) := by
  have hfit : IntegersFit (ts ++ t :: us) :=
    IntegersFit.append_iff.mpr ⟨hl.fit, .cons (by simp [ht]) hr.fit⟩
  refine .of_parts hderives hlevel hfit fun ho => ?_
  have hleft := hl.laid ho.left
  have hright := hr.laid ho.right.tail
  have hspan : (l.span.merge r.span).Bounds (ts ++ t :: us) :=
    hleft.span.merge hright.span ho (List.prefix_append ts _)
      ((List.suffix_cons t us).trans (List.suffix_append ts _))
  exact ⟨hspan, (Embedded.single hleft).append ((Embedded.single hright).behind [t])⟩

/-- Expressions with commas between them. -/
theorem LaidAt.embedded {args : List (List Token × Expr)} (hts : Commas (args.map Prod.fst) ts)
    (hargs : ∀ a ∈ args, LaidAt 1 a.1 a.2) (ho : InOrder ts) :
    Embedded Laid ts ((args.map Prod.snd).map .expression) :=
  .of_commas hts fun a ha => (hargs a ha).laid (ho.sublist (hts.sublist (List.mem_map_of_mem ha)))

/-- Whatever the grammar of expressions puts together is laid. -/
theorem laidAt_rules : Rules LaidAt where
  tighter h := ⟨h.derives.tighter, h.fit, h.laid⟩
  assignment hop ht hl hr :=
    .join (.assignment hop ht hl.derives hr.derives) (Nat.le_refl 1) ht hl hr
  binary hop ht hl hr :=
    .join (.binary hop ht hl.derives hr.derives) (BinaryOp.one_le_precedence _) ht hl hr
  before {ts t _ _} ht h := by
    refine .of_parts (.before ht h.derives) (by decide) (.cons (by simp [ht]) h.fit) fun ho => ?_
    have hx := h.laid ho.tail
    have hspan := (Span.bounds_token t).merge hx.span ho ⟨ts, rfl⟩ (List.suffix_cons t ts)
    exact ⟨hspan, (Embedded.single hx).behind [t]⟩
  behind {ts t _ _} h hop ht := by
    have hfit := h.fit.snoc (t := t) (by simp [ht])
    refine .of_parts (.behind h.derives hop ht) (by decide) hfit fun ho => ?_
    have hx := h.laid ho.left
    have hspan := hx.span.merge (Span.bounds_token t) ho (List.prefix_append ts _)
      (List.suffix_append ts _)
    exact ⟨hspan, (Embedded.single hx).before [t]⟩
  subscript {ts us t u _ _} ha ht hi hu := by
    have hfit : IntegersFit (ts ++ t :: (us ++ [u])) :=
      IntegersFit.append_iff.mpr ⟨ha.fit, .cons (by simp [ht]) (hi.fit.snoc (by simp [hu]))⟩
    refine .of_parts (.subscript ha.derives ht hi.derives hu) (by decide) hfit fun ho => ?_
    have ha := ha.laid ho.left
    have hi := hi.laid ho.right.tail.left
    have hlast : [u] <:+ ts ++ t :: (us ++ [u]) := ⟨ts ++ t :: us, by simp⟩
    have hspan := ha.span.merge (Span.bounds_token u) ho (List.prefix_append ts _) hlast
    exact ⟨hspan, (Embedded.single ha).append (((Embedded.single hi).before [u]).behind [t])⟩
  name {t _} ht :=
    .of_parts (.name ht) (by decide) (.cons (by simp [ht]) .nil) fun _ =>
      ⟨Span.bounds_token t, .nil _⟩
  literal {t _} ht hfit :=
    .of_parts (.literal ht) (by decide) hfit fun _ => ⟨Span.bounds_token t, .nil _⟩
  parentheses {ts t u _} ht h hu := by
    have hfit : IntegersFit (t :: (ts ++ [u])) :=
      .cons (by simp [ht]) (h.fit.snoc (by simp [hu]))
    refine .of_parts (.parentheses ht h.derives hu) (by decide) hfit fun ho => ?_
    have hx := h.laid ho.tail.left
    exact ⟨.brackets ho, ((Embedded.single hx).before [u]).behind [t]⟩
  call {f t u args ts} hf ht hts hargs hu := by
    have hall : ∀ us ∈ args.map Prod.fst, IntegersFit us := by
      intro us hus
      obtain ⟨a, ha, rfl⟩ := List.mem_map.mp hus
      exact (hargs a ha).fit
    have hfit : IntegersFit (f :: t :: (ts ++ [u])) :=
      .cons (by simp [hf]) (.cons (by simp [ht]) ((hts.integersFit hall).snoc (by simp [hu])))
    refine .of_parts (.call hf ht hts (fun a ha => (hargs a ha).derives) hu) (by decide) hfit
      fun ho => ?_
    have hspan : (f.span.merge u.span).Bounds (f :: ((t :: ts) ++ [u])) := .brackets ho
    exact ⟨hspan, ((LaidAt.embedded hts hargs ho.tail.tail.left).before [u]).behind [f, t]⟩

/-! ## Attributes -/

structure LaidArguments (ts : List Token) (xs : List Expr) : Prop where
  derives : DerivesArguments ts xs
  laid (ho : InOrder ts) : Embedded Laid ts (xs.map .expression)

theorem LaidArguments.list {args : List (List Token × Expr)} (hts : Commas (args.map Prod.fst) ts)
    (hargs : ∀ a ∈ args, LaidAt 1 a.1 a.2) : LaidArguments ts (args.map Prod.snd) :=
  ⟨.list hts fun a ha => (hargs a ha).derives, LaidAt.embedded hts hargs⟩

/-- The tokens are an attribute that is laid, if they are in order. -/
structure LaidMark (ts : List Token) (a : Attribute) : Prop where
  derives : DerivesAttribute ts a
  laid (ho : InOrder ts) : Laid ts (.mark a)

theorem LaidMark.rows {marks : List Attribute} (h : Rows LaidMark ts marks) (ho : InOrder ts) :
    Rows MarkAt ts marks ∧ Embedded Laid ts (marks.map .mark) := by
  constructor
  · refine h.within.mono fun us a ha => ?_
    obtain ⟨ha, hsub⟩ := ha
    exact ⟨ha.derives, (ha.laid (ho.sublist hsub)).span⟩
  · rw [List.map_eq_flatMap]
    exact .of_rows h fun us a ha hsub => .single (ha.laid (ho.sublist hsub))

/-! ## Declarations -/

/-- An initial value that is laid. -/
structure LaidInitializer (ts : List Token) (value : Option Expr) : Prop where
  derives : DerivesInitializer ts value
  fit : IntegersFit ts
  laid (ho : InOrder ts) : Embedded Laid ts (value.toList.map .expression)

structure LaidDeclarator (ts : List Token) (d : Declarator) : Prop where
  derives : DerivesDeclarator ts d
  laid (ho : InOrder ts) : Laid ts (.declarator d)

structure LaidDeclaration (ts : List Token) (ds : List Declarator) : Prop where
  derives : DerivesDeclaration ts ds
  laid (ho : InOrder ts) : DeclarationAt ts ds ∧ Embedded Laid ts (ds.map .declarator)

/-- Where no star is left for the first declarator, it starts with its name. -/
theorem LaidDeclaration.of_commas {t : Token} {type : VarType} {ds : List (List Token × Declarator)}
    (hts : DerivesType ts type) (hus : Commas (ds.map Prod.fst) us) (hne : ds ≠ [])
    (hds : ∀ d ∈ ds, LaidDeclarator d.1 d.2) (ht : t.kind = .symbol .semicolon)
    (hstar : ∀ n ∈ us.head?, n.kind ≠ .symbol .star) :
    LaidDeclaration (ts ++ (us ++ [t])) (ds.map Prod.snd) := by
  have hderives : ∀ d ∈ ds, DerivesDeclarator d.1 d.2 := fun d hd => (hds d hd).derives
  refine ⟨.list hts hus hne hderives ht, fun ho => ?_⟩
  have hlaid : ∀ d ∈ ds, Laid d.1 (.declarator d.2) := fun d hd =>
    (hds d hd).laid (ho.right.left.sublist (hus.sublist (List.mem_map_of_mem hd)))
  have hfirst : ∀ n ∈ us.head?, n.kind = .identifier := by
    intro n hn
    obtain ⟨⟨ws, d⟩, ds, rfl⟩ := List.exists_cons_of_ne_nil hne
    obtain ⟨hd, hrest⟩ := List.forall_mem_cons.mp hderives
    obtain ⟨vs, rfl, -⟩ := hus.exists_rows hrest
    obtain @⟨stars, _, _, m, _, _, _, _, _, hstars, hm, -, -⟩ := hd
    cases stars with
    | nil =>
      obtain rfl : m = n := by simpa using hn
      exact hm
    | cons star stars =>
      obtain rfl : star = n := by simpa using hn
      exact absurd (hstars.2 _ List.mem_cons_self) (hstar _ hn)
  refine ⟨.list hts hus hfirst (fun d hd => ⟨hderives d hd, (hlaid d hd).span⟩) ht, ?_⟩
  exact ((Embedded.of_commas hus hlaid).before [t]).behind ts

/-! ## Headers of loops -/

/-- A clause that is laid. One that is left out has the span of that token. -/
inductive LaidClause (t : Token) : List Token → Stmt → Prop
  | omitted : LaidClause t [] (.empty ⟨t.span, []⟩)
  | expression {ts : List Token} {x : Expr} (h : LaidAt 1 ts x) :
      LaidClause t ts (.expression ⟨x.span, []⟩ x)

namespace LaidClause

variable {t u : Token} {s : Stmt}

theorem derives (h : LaidClause t ts s) : DerivesClause ts s := by
  cases h with
  | omitted => exact .omitted
  | expression h => exact .expression h.derives

/-- The token matters where the clause is left out. -/
theorem of_head (h : LaidClause t ts s) (ht : t ∈ (ts ++ [u]).head?) : LaidClause u ts s := by
  cases h with
  | omitted =>
    obtain rfl : u = t := by simpa using ht
    exact .omitted
  | expression h => exact .expression h

theorem clauseAt (h : LaidClause t ts s) (ho : InOrder ts) : ClauseAt ts t s := by
  cases h with
  | omitted => exact .omitted t
  | expression h => exact .expression t h.derives (h.laid ho).span

theorem embedded (h : LaidClause t ts s) (ho : InOrder ts)
    (ht : t.kind = .symbol .rightParen ∨ t.kind = .symbol .semicolon) :
    Embedded Laid (ts ++ [t]) [.clause s] := by
  cases h with
  | omitted => exact .single (.intro ⟨rfl, t, rfl, ht⟩ (Span.bounds_token t) (.nil _))
  | expression h =>
    have hx := h.laid ho
    exact (Embedded.single (.intro h.derives hx.span (Embedded.single hx))).before [t]

end LaidClause

structure LaidInit (ts : List Token) (s : Stmt) : Prop where
  derives : DerivesInit ts s
  laid (ho : InOrder ts) : InitAt ts s ∧ Embedded Laid ts [.clause s]

theorem LaidInit.clause {t : Token} {s : Stmt} (h : LaidClause t ts s)
    (ht : t.kind = .symbol .semicolon) : LaidInit (ts ++ [t]) s :=
  ⟨.clause h.derives ht, fun ho => ⟨.clause (h.clauseAt ho.left) ht, h.embedded ho.left (.inr ht)⟩⟩

theorem LaidInit.declaration {ds : List Declarator} {s : Span} (h : LaidDeclaration ts ds)
    (hs : InOrder ts → s.Bounds ts) : LaidInit ts (.declaration ⟨s, []⟩ ds) := by
  refine ⟨.declaration h.derives, fun ho => ?_⟩
  obtain ⟨hds, hparts⟩ := h.laid ho
  exact ⟨.declaration hds (hs ho), .single (.intro hds (hs ho) hparts)⟩

/-- The attributes in a header are laid behind their semicolon. -/
structure LaidMarks (ts : List Token) (marks : List Attribute) : Prop where
  derives : DerivesMarks ts marks
  laid (ho : InOrder ts) : MarksAt ts marks ∧ Embedded Laid ts.tail (marks.map .mark)

theorem LaidMarks.behind {t : Token} {marks : List Attribute} (ht : t.kind = .symbol .semicolon)
    (h : Rows LaidMark ts marks) : LaidMarks (t :: ts) marks := by
  refine ⟨.behind ht (h.mono fun _ _ h => h.derives), fun ho => ?_⟩
  obtain ⟨hmarks, hparts⟩ := LaidMark.rows h ho.tail
  exact ⟨.behind ht hmarks, hparts⟩

structure LaidHeader (ts : List Token) (init check update : Stmt) (marks : List Attribute) :
    Prop where
  derives : DerivesHeader ts init check update marks
  laid (ho : InOrder ts) : HeaderAt ts init check update marks ∧
    Embedded Laid ts ([.clause init, .clause check, .clause update] ++ marks.map .mark)

/-- The last clause goes as far as the token behind it, and attributes stand behind that. -/
theorem LaidHeader.of_clauses {vs ws : List Token} {t u v : Token} {init check update : Stmt}
    {marks : List Attribute} (hinit : LaidInit ts init) (hcheck : LaidClause t us check)
    (ht : t.kind = .symbol .semicolon) (hupdate : LaidClause v vs update)
    (hmarks : LaidMarks ws marks) (hu : u.kind = .symbol .rightParen)
    (hv : v ∈ (ws ++ [u]).head?) :
    LaidHeader (ts ++ (us ++ t :: (vs ++ (ws ++ [u])))) init check update marks := by
  refine ⟨.clauses hinit.derives hcheck.derives ht hupdate.derives hmarks.derives hu,
    fun ho => ?_⟩
  have hous := ho.right.left
  have hovs := ho.right.right.tail.left
  have hows := ho.right.right.tail.right.left
  obtain ⟨hinit, hinit'⟩ := hinit.laid ho.left
  have hcheck' := hcheck.embedded hous (.inr ht)
  obtain ⟨hmarks', hmarks''⟩ := hmarks.laid hows
  refine ⟨.clauses hinit (hcheck.clauseAt hous) ht (hupdate.clauseAt hovs) hmarks' hu hv, ?_⟩
  have hlast : Embedded Laid (vs ++ (ws ++ [u])) ([.clause update] ++ marks.map .mark) := by
    obtain - | ⟨hw, hws⟩ := hmarks.derives
    · obtain rfl : u = v := by simpa using hv
      exact hupdate.embedded hovs (.inl hu)
    · obtain rfl : _ = v := by simpa using hv
      have happend := (hupdate.embedded hovs (.inr hw)).append (hmarks''.before [u])
      simpa using happend
  have hrest := hinit'.append (hcheck'.append hlast)
  simpa using hrest

/-! ## Statements -/

structure LaidCondition (k : Keyword) (ts : List Token) (x : Expr) : Prop where
  derives : DerivesCondition k ts x
  laid (ho : InOrder ts) : Embedded Laid ts [.expression x]

structure LaidValue (ts : List Token) (value : Option Expr) : Prop where
  derives : DerivesValue ts value
  laid (ho : InOrder ts) : Embedded Laid ts (value.toList.map .expression)

/-- The tokens are a statement and the attributes in front of it, all laid if they are in order. -/
structure LaidStmt (ts : List Token) (s : Stmt) : Prop where
  derives : DerivesStmt ts s
  laid (ho : InOrder ts) : StmtAt ts s ∧ Embedded Laid ts s.withAttributes

/-- The statements of a block. -/
theorem LaidStmt.block {body : List Stmt} (h : DerivesBlock LaidStmt ts body) (ho : InOrder ts) :
    DerivesBlock StmtAt ts body ∧ Embedded Laid ts (body.flatMap Stmt.withAttributes) := by
  refine ⟨h.imp fun us s hsub h => (h.laid (ho.sublist hsub)).1, ?_⟩
  obtain @⟨t, u, ts, body, -, h, -⟩ := h
  have ho := ho.tail.left
  exact ((Embedded.of_rows h fun us s h hsub => (h.laid (ho.sublist hsub)).2).before [u]).behind [t]

/-- The tokens are a statement without the attributes in front of it. The attributes in its header
are those behind its start. -/
structure LaidRest (ts : List Token) (marks : List Attribute) (s : Stmt) : Prop where
  derives : DerivesRest LaidStmt ts marks s
  laid (ho : InOrder ts) : s.span.Bounds ts ∧ ∃ more, s.attributes = marks ++ more ∧
    (∀ a ∈ more, s.head.HasInside a) ∧
    (s.attributesInside = more → DetailsAt ts s ∧ Embedded Laid ts s.parts)

/-- A statement without a header. -/
theorem LaidRest.of_parts {marks : List Attribute} {s : Stmt}
    (derives : DerivesRest LaidStmt ts marks s) (hmarks : s.attributes = marks)
    (hspan : InOrder ts → s.span.Bounds ts)
    (h : InOrder ts → DetailsAt ts s ∧ Embedded Laid ts s.parts) : LaidRest ts marks s := by
  refine ⟨derives, fun ho => ⟨hspan ho, [], ?_, ?_, fun _ => h ho⟩⟩
  · rw [hmarks, List.append_nil]
  · exact fun a ha => absurd ha List.not_mem_nil

theorem LaidRest.forLoop {marks more : List Attribute} {t u : Token} {s : Span}
    {init check update body : Stmt} (ht : t.kind = .keyword .forLoop)
    (hu : u.kind = .symbol .leftParen) (hts : LaidHeader ts init check update more)
    (hus : LaidStmt us body)
    (hs : InOrder (t :: u :: (ts ++ us)) → s.Bounds (t :: u :: (ts ++ us))) :
    LaidRest (t :: u :: (ts ++ us)) marks
      (.forLoop ⟨s, marks ++ more⟩ init check update body) := by
  refine ⟨.forLoop ht hu hts.derives hus, fun ho => ⟨hs ho, more, rfl, fun a ha => ?_, ?_⟩⟩
  · obtain ⟨ws, hws, ha⟩ := (hts.laid ho.tail.tail.left).2.exists_of_mem
      (List.mem_append_right _ (List.mem_map_of_mem ha))
    have hsub : ws.Sublist (u :: (ts ++ us)) :=
      (hws.sublist.trans (List.sublist_append_left ts us)).cons u
    have hbefore := (Span.bounds_token t).before ha.span (ho.sublist (hsub.cons_cons t))
    obtain ⟨⟨t', ht', hstart⟩, -⟩ := hs ho
    obtain rfl : t = t' := by simpa using ht'
    have hpos := ho.nonempty t List.mem_cons_self
    show s.start.offset < a.span.start.offset
    rw [hstart]
    exact Nat.lt_of_lt_of_le hpos hbefore
  · intro hmore
    obtain ⟨hheader, hclauses⟩ := hts.laid ho.tail.tail.left
    obtain ⟨hbody, hbody'⟩ := hus.laid ho.tail.tail.right
    refine ⟨⟨t, u, ts, us, rfl, hmore.symm ▸ hheader, hbody⟩, ?_⟩
    have hparts := (hclauses.append hbody').behind [t, u]
    rw [List.append_assoc] at hparts
    show Embedded Laid _ (_ ++ (List.map Node.mark _ ++ _))
    rw [hmore]
    exact hparts

/-- Attributes that stand in front of a statement are not those in its header. -/
theorem LaidStmt.marked {marks : List Attribute} {s : Stmt} (hmarks : Rows LaidMark ts marks)
    (h : LaidRest us marks s) : LaidStmt (ts ++ us) s := by
  refine ⟨.marked (hmarks.mono fun _ _ h => h.derives) (h.derives.imp fun _ _ _ h => h.derives),
    fun ho => ?_⟩
  obtain ⟨hspan, more, hattributes, hbehind, hparts⟩ := h.laid ho.right
  obtain ⟨hmarks, hmarks'⟩ := LaidMark.rows hmarks ho.left
  have hbefore : ∀ a ∈ marks, ¬ s.head.HasInside a := by
    intro a ha
    obtain ⟨ws, hws, ha⟩ := hmarks'.exists_of_mem (List.mem_map_of_mem ha)
    have ho := ho.sublist (hws.sublist.append_right us)
    have hbefore : a.span.stop.offset ≤ s.span.start.offset := ha.span.before hspan ho
    have hpos : a.span.start.offset < a.span.stop.offset := ha.span.nonempty ho.left
    show ¬ s.span.start.offset < a.span.start.offset
    omega
  obtain ⟨hahead, hinside⟩ := StmtHead.filter_hasInside hattributes hbefore hbehind
  obtain ⟨hdetails, hparts⟩ := hparts hinside
  have hahead : s.attributesAhead = marks := hahead
  have hrest : DerivesRest StmtAt us marks s :=
    h.derives.imp fun _ _ hsub h => (h.laid (ho.right.sublist hsub)).1
  refine ⟨⟨ts, us, rfl, hahead.symm ▸ hmarks, ?_, hspan⟩, ?_⟩
  · rw [hahead]
    exact h.derives.imp fun _ _ _ h => h.derives
  · have hlaid : Laid us (.statement s) := .intro ⟨hahead.symm ▸ hrest, hdetails⟩ hspan hparts
    show Embedded Laid _ (List.map Node.mark _ ++ _)
    rw [hahead]
    exact hmarks'.append (.single hlaid)

/-! ## Functions -/

structure LaidBlock (ts : List Token) (b : Block) : Prop where
  derives : DerivesBlock LaidStmt ts b.statements
  span (ho : InOrder ts) : b.span.Bounds ts

theorem LaidBlock.laid {b : Block} (h : LaidBlock ts b) (ho : InOrder ts) : Laid ts (.block b) := by
  obtain ⟨hbody, hparts⟩ := LaidStmt.block h.derives ho
  exact .intro hbody (h.span ho) hparts

structure LaidFunction (ts : List Token) (f : Function) : Prop where
  derives : DerivesFunction ts f
  laid (ho : InOrder ts) :
    FunctionAt ts f ∧ Embedded Laid ts (f.attributes.map .mark ++ [.function f])

theorem LaidFunction.of_body {ws : List Token} {f : Function}
    (hmarks : Rows LaidMark ts f.attributes) (hderives : DerivesFunction (ts ++ (us ++ ws)) f)
    (hbody : LaidBlock ws f.body) (hspan : InOrder (us ++ ws) → f.span.Bounds (us ++ ws)) :
    LaidFunction (ts ++ (us ++ ws)) f := by
  refine ⟨hderives, fun ho => ?_⟩
  obtain ⟨hmarks, hmarks'⟩ := LaidMark.rows hmarks ho.left
  have hspan := hspan ho.right
  have hlaid : Laid (us ++ ws) (.function f) :=
    .intro ⟨ts, hmarks, hderives⟩ hspan ((Embedded.single (hbody.laid ho.right.right)).behind us)
  exact ⟨⟨ts, us ++ ws, rfl, hmarks, hderives, hspan⟩, hmarks'.append (.single hlaid)⟩

end Grammar

end LoopNest
