import LoopNest.Proofs.Grammar.AcceptDecl
import LoopNest.Proofs.Stmt.Printable

/-!
# Statements that are accepted

The words of a statement are read again as the statement, but for spans and numbers of variables.

* `Context.Run.covers`: a name that stands for something goes on to stand for something.
* `Stmt.Printed`, `Stmt.LoopAhead`, `Grammar.StatementsAhead`: a statement of a program as it is
  printed, and what is left of a loop and of a block.
* `Grammar.marked_statement_accepts`: the grammar accepts the words of such a statement with its
  attributes, one lemma for each kind of statement.
* `Grammar.statementFor_accepts`: so it does in as many rounds as there are words.
-/

namespace LoopNest

/-! ## Names that stay bound -/

namespace Context

/-- In every frame, what is bound stays bound. -/
def Covers (c c' : Context) : Prop :=
  ∀ name, List.Forall₂ (fun o o' : Option VarRef => o.isSome = true → o'.isSome = true)
    (c.column name) (c'.column name)

variable {c c₁ c' : Context} {v : VarRef} {us ds : List VarRef}

theorem Covers.refl (c : Context) : c.Covers c := fun _ => List.forall₂_same.mpr fun _ _ h => h

theorem Covers.trans (h : c.Covers c₁) (h' : c₁.Covers c') : c.Covers c' := by
  intro name
  have htrans {as bs cs : List (Option VarRef)}
      (h : List.Forall₂ (fun o o' => o.isSome = true → o'.isSome = true) as bs)
      (h' : List.Forall₂ (fun o o' => o.isSome = true → o'.isSome = true) bs cs) :
      List.Forall₂ (fun o o' : Option VarRef => o.isSome = true → o'.isSome = true) as cs := by
    induction h generalizing cs with
    | nil => exact h'
    | cons hab _ ih =>
      cases h' with
      | cons hbc hrest => exact .cons (fun h => hbc (hab h)) (ih hrest)
  exact htrans (h name) (h' name)

theorem covers_of_keeps (hother : ∀ name, name ≠ v.name → c'.column name = c.column name)
    (hself : List.Forall₂ (fun o o' : Option VarRef => o.isSome = true → o'.isSome = true)
      (c.column v.name) (c'.column v.name)) : c.Covers c' := by
  intro name
  by_cases hsame : name = v.name
  · rw [hsame]
    exact hself
  · rw [hother name hsame]
    exact List.forall₂_same.mpr fun _ _ h => h

theorem Resolves.covers (h : c.Resolves v c') : c.Covers c' := by
  have hlength := (Run.used h).length_frames
  rcases resolves_cases h with ⟨_, rfl⟩ | ⟨hnone, _, span, rfl⟩
  · exact .refl _
  · refine covers_of_keeps (v := v) (fun name hne => Frame.column_bindOuter_ne hne) ?_
    rw [Follows.column_of_none hnone, List.forall₂_iff_get]
    refine ⟨?_, fun i hi _ h => ?_⟩
    · rw [List.length_replicate, column, List.length_map, hlength]
    · rw [List.get_eq_getElem, List.getElem_replicate] at h
      cases h

theorem Declares.covers {type : VarType} (h : c.Declares v type c') (hc : c.Sound) :
    c.Covers c' := by
  obtain ⟨_, _, span, rfl⟩ := declares_cases h
  refine covers_of_keeps (v := v) (fun name hne => Frame.column_bindInner_ne hne) ?_
  obtain ⟨os, hos⟩ := Follows.headD_column c v.name hc
  have hbind : (⟨(c.vars.declare v.name type span).2, Frame.bindInner (v.name, v) c.frames⟩ :
      Context).column v.name = some v :: os := Frame.column_bindInner hos
  rw [hbind, hos]
  exact .cons (fun _ => rfl) (List.forall₂_same.mpr fun _ _ h => h)

/-- What is bound stays so in the frames that are there before a run and behind it. -/
theorem Run.covers (h : Run c us ds c') (hc : c.Sound) : c.Covers c' := by
  induction h with
  | nil c => exact .refl c
  | used hv => exact hv.covers
  | declared hv => exact hv.covers hc
  | append first _ ih ih' => exact (ih hc).trans (ih' (first.sound hc))
  | @scope c c' us ds inside ih =>
    intro name
    have hinside := ih hc.push name
    rw [column_push] at hinside
    rw [column_pop]
    generalize c'.column name = os at hinside
    cases hinside with
    | cons _ hrest => exact hrest

theorem Covers.find?_ne_none (h : c.Covers c') {name : String} (hfind : c.find? name ≠ none) :
    c'.find? name ≠ none := by
  have hcolumns := h name
  rw [find?_eq_column] at hfind ⊢
  generalize c.column name = as at hcolumns hfind
  generalize c'.column name = bs at hcolumns
  induction hcolumns with
  | nil => exact absurd rfl hfind
  | @cons o o' as bs hoo _ ih =>
    cases o' with
    | some v => exact fun h => by cases h
    | none =>
      cases o with
      | some v => exact absurd (hoo rfl) (by simp)
      | none => exact ih hfind

/-- A name that was used stands for something. -/
theorem Refers.find?_ne_none {vs : List VarRef} (h : c.Refers vs c') (hc : c.Sound) :
    ∀ v ∈ vs, c'.find? v.name ≠ none := by
  induction h with
  | nil => exact fun _ hv => absurd hv List.not_mem_nil
  | @cons c c₁ c' v vs first rest ih =>
    refine List.forall_mem_cons.mpr ⟨?_, ih (first.sound hc)⟩
    have hcovers := (Run.of_refers rest).covers (first.sound hc)
    refine hcovers.find?_ne_none ?_
    rcases resolves_cases first with ⟨hfind, rfl⟩ | ⟨hnone, hid, span, rfl⟩
    · rw [hfind]
      exact fun h => by cases h
    · rcases Follows.column_bindOuter (v := v) hc hnone (c.vars.declareImplicit v.name span).2 with
        ⟨_, hcolumn⟩ | ⟨n, _, hcolumn⟩
      · rw [find?_eq_column, hcolumn]
        exact fun h => by cases h
      · rw [find?_eq_column, hcolumn, List.findSome?_append]
        simp

end Context

/-! ## Statements as they are printed -/

/-- A statement in a function, with what is needed to read it back from its words. -/
structure Stmt.Printed (sizes : Span → List String) (exact : Prop) (vars : VarTable) (c : Context)
    (s : Stmt) (c' : Context) : Prop where
  read : s.ReadIn sizes c c'
  printable : s.AllPrintable exact vars
  table : c'.vars.Extends vars
  frames : 2 ≤ c.frames.length

section

variable {sizes : Span → List String} {exact : Prop} {vars : VarTable} {c c₁ c' : Context} {s : Stmt}

/-- What is known of a printed statement and of those below it. -/
theorem Stmt.Printed.parts (hs : s.Printed sizes exact vars c c') :
    s.ReadIn sizes c c' ∧ s.Printable exact vars ∧
      (∀ t ∈ s.children, t.AllPrintable exact vars) ∧ c'.vars.Extends vars ∧
      2 ≤ c.frames.length := by
  obtain ⟨hread, hprintable, htable, hframes⟩ := hs
  obtain ⟨hself, hbelow⟩ := (allPrintable_iff _).mp hprintable
  exact ⟨hread, hself, hbelow, htable, hframes⟩

/-- Variables are only added, and the scopes are the same ones. -/
structure Context.Passes (c c' : Context) : Prop where
  table : c.vars.Extends c'.vars
  frames : c'.frames.length = c.frames.length

namespace Context.Passes

theorem trans (h : c.Passes c₁) (h' : c₁.Passes c') : c.Passes c' :=
  ⟨h.table.trans h'.table, h'.frames.trans h.frames⟩

theorem of_runWith {us ds : List VarRef} (h : c.RunWith us ds c') : c.Passes c' := by
  obtain ⟨_, _, hrun⟩ := h
  exact ⟨hrun.vars_extend, hrun.length_frames⟩

end Context.Passes

theorem Stmt.ReadIn.passes (h : s.ReadIn sizes c c') : c.Passes c' := .of_runWith h.run

theorem Context.Reads.passes {xs : List Expr} (h : c.Reads xs c') : c.Passes c' :=
  .of_runWith (.of_run (.of_reads h))

theorem Stmt.ReadIn.covers (h : s.ReadIn sizes c c') (hc : c.Sound) : c.Covers c' := by
  obtain ⟨_, _, hrun⟩ := h.run
  exact hrun.covers hc

/-- What is left of a loop behind its opening parenthesis: the clauses, the attributes, of which the
first ones stood in front of it, and the body. -/
structure Stmt.LoopAhead (sizes : Span → List String) (exact : Prop) (vars : VarTable) (i k u b : Stmt)
    (before behind : List Attribute) (c c₁ c₂ c₃ c₄ c₅ : Context) : Prop where
  init : i.IsInit ∧ i.Printed sizes exact vars c c₁
  check : k.IsClause ∧ k.Printed sizes exact vars c₁ c₂
  update : u.IsClause ∧ u.Printed sizes exact vars c₂ c₃
  args : ∀ x ∈ (before ++ behind).flatMap Attribute.args, x.Readable
  bound : ∀ v ∈ Attribute.refsAll before, c₃.find? v.name ≠ none
  before : exact → Attribute.refsAll before = []
  behind : c₃.ReadsMarks behind c₄
  body : b.Printed sizes exact vars c₄ c₅

/-- The clauses and the body of a printed loop are printed in the scope of its header, where the
names that the attributes in front of it use are bound. -/
theorem Stmt.Printed.loopAhead {h : StmtHead} {i k u b : Stmt}
    (hs : (Stmt.forLoop h i k u b).Printed sizes exact vars c c') (hc : c.Sound) :
    ∃ before behind c₁ c₂ c₃ c₄ c₅ c₆, h.attributes = before ++ behind ∧ c.ReadsMarks before c₁ ∧
      LoopAhead sizes exact vars i k u b before behind c₁.push c₂ c₃ c₄ c₅ c₆ ∧
      c' = c₆.pop := by
  obtain ⟨hread, hself, hbelow, htable, hframes⟩ := hs.parts
  obtain ⟨before, behind, c₁, c₂, c₃, c₄, c₅, c₆, ⟨hattributes, hinside, _⟩, hbefore, ⟨hinit, hi⟩,
    ⟨hcheck, hk⟩, ⟨hupdate, hu⟩, hbehind, hb, rfl⟩ := hread
  have hvars₆ : c₆.vars.Extends vars := htable
  have hvars₅ := hb.passes.table.trans hvars₆
  have hvars₄ := hbehind.2.passes.table.trans hvars₅
  have hvars₃ := hu.passes.table.trans hvars₄
  have hvars₂ := hk.passes.table.trans hvars₃
  have hframes₁ : 2 ≤ c₁.push.frames.length :=
    Nat.le_succ_of_le (hbefore.2.passes.frames ▸ hframes)
  have hframes₂ := hi.passes.frames ▸ hframes₁
  have hframes₃ := hk.passes.frames ▸ hframes₂
  have hframes₄ := hu.passes.frames ▸ hframes₃
  have hframes₅ := hbehind.2.passes.frames ▸ hframes₄
  refine ⟨before, behind, c₁, c₂, c₃, c₄, c₅, c₆, hattributes, hbefore, ⟨⟨hinit, hi, ?_, hvars₂,
    hframes₁⟩, ⟨hcheck, hk, ?_, hvars₃, hframes₂⟩, ⟨hupdate, hu, ?_, hvars₄, hframes₃⟩, ?_, ?_, ?_,
    hbehind, hb, ?_, hvars₆, hframes₅⟩, rfl⟩
  · exact hbelow i (by simp [Stmt.children])
  · exact hbelow k (by simp [Stmt.children])
  · exact hbelow u (by simp [Stmt.children])
  · intro x hx
    refine ⟨?_, hself.marks x (show x ∈ h.attributes.flatMap Attribute.args from hattributes ▸ hx)⟩
    rw [List.flatMap_append] at hx
    rcases List.mem_append.mp hx with hx | hx
    · exact hbefore.2.1 x hx
    · exact hbehind.2.1 x hx
  · intro v hv
    have hsound := hbefore.2.2.sound hc
    have hfind := hbefore.2.2.find?_ne_none hc v hv
    have hcovers := ((hi.covers hsound.push).trans (hk.covers (hi.sound hsound.push))).trans
      (hu.covers (hk.sound (hi.sound hsound.push)))
    exact hcovers.find?_ne_none ((Context.find?_push c₁ v.name).trans_ne hfind)
  · intro hexact
    have hsub : before ⊆ h.attributes := hattributes ▸ List.subset_append_left _ _
    exact hself.refs_eq_nil hexact rfl hsub hinside
  · exact hbelow b (by simp [Stmt.children])

end

namespace Grammar

open Parse

section

variable {sizes : Span → List String} {exact : Prop} {K : Pairing} {vars : VarTable}
  {c c₁ c₂ c' : Context} {s : Stmt} {marks : List Attribute} {r : Reader} {w : Word} {ws : List Word}

theorem alikeHeads_of_nil {h h' : StmtHead} (hh : h.attributes = []) (hh' : h'.attributes = []) :
    Stmt.AlikeHeads exact K h h' := by
  intro σ τ _
  simp only [hh, hh', List.map_nil]

/-! ## Headers -/

/-- An expression is read again. -/
theorem expression_rereads {x : Expr} (hx : c.Reads [x] c') (ha : x.Apart) (hw : w.Ends)
    (hfollows : Context.Follows exact K c r.context) (hsees : r.Sees (x.words ++ w :: ws)) :
    expression.Accepts r fun y r' => r'.Sees (w :: ws) ∧
      Context.FollowsBy exact K c' r'.context fun L =>
        L.Same exact (fun σ => x.relabel σ.vars) fun τ => y.relabel τ.vars := by
  have hreadable : x.Readable := ⟨hx.1 x List.mem_cons_self, ha⟩
  refine (expression_accepts hreadable hw hsees).mono fun y r' h => ⟨h.2.1, ?_⟩
  exact expression_follows hfollows hx h.2.2 h.1

/-- A clause without its semicolon. -/
theorem clause_accepts {stops : List Symbol} (hclause : s.IsClause) (hs : s.ReadIn sizes c c')
    (hprintable : s.AllPrintable exact vars) (hstops : ∀ y ∈ stops, y ∈ [.rightParen, .semicolon])
    (hw : ∃ y ∈ stops, w = .symbol y) (hfollows : Context.Follows exact K c r.context)
    (hsees : r.Sees (s.clauseWords vars ++ w :: ws)) :
    (clause stops).Accepts r fun s' r' => r'.Sees (w :: ws) ∧
      Context.FollowsBy exact K c' r'.context fun L => s.Alike exact L s' := by
  obtain ⟨y, hy, rfl⟩ := hw
  refine .get ?_
  cases s with
  | empty h =>
    have hstop : stops.any r.seesSymbol = true :=
      List.any_eq_true.mpr ⟨y, hy, (hsees.seesSymbol_iff y).mpr rfl⟩
    rw [if_pos hstop]
    have hnil : h.attributes = [] := hclause
    obtain ⟨L, hle, hfollows', -⟩ := hfollows.refers hs.2.2 (.nil r.context)
      (by simp [hnil])
    exact .pure ⟨hsees, L, hle, hfollows', .empty (alikeHeads_of_nil hnil rfl)⟩
  | expression h x =>
    obtain ⟨c₁, hmarks, hx⟩ := hs
    have hnil : h.attributes = [] := hclause
    rw [hnil] at hmarks
    obtain ⟨⟩ := hmarks.2.2
    obtain ⟨hself, _⟩ := (Stmt.allPrintable_iff _).mp hprintable
    have hapart : x.Apart := hself.values x List.mem_cons_self
    obtain ⟨w', ws', hwords, hstart, _⟩ := Expr.words_start (hx.1 x List.mem_cons_self)
    have hsees : r.Sees (x.words ++ .symbol y :: ws) := hsees
    have hgo : ¬ stops.any r.seesSymbol = true := by
      have hahead := hsees
      rw [hwords, List.cons_append] at hahead
      rw [List.any_eq_true]
      rintro ⟨z, hz, hsees'⟩
      rw [(hahead.seesSymbol_iff z).mp hsees'] at hstart
      have hall := hstops z hz
      simp only [List.mem_cons, List.not_mem_nil, or_false] at hall
      rcases hall with rfl | rfl <;> cases hstart
    rw [if_neg hgo]
    have hends : (Word.symbol y).Ends := Symbol.ends_of_mem (by
      have hall := hstops y hy
      simp only [List.mem_cons, List.not_mem_nil, or_false] at hall ⊢
      tauto)
    refine (expression_rereads hx hapart hends hfollows hsees).bind fun x' r₁ h₁ => .pure ?_
    obtain ⟨hsees₁, L, hle, hfollows₁, hsame⟩ := h₁
    exact ⟨hsees₁, L, hle, hfollows₁, .expression (alikeHeads_of_nil hnil rfl) hsame⟩
  | _ => cases hclause

theorem initClause_accepts (hinit : s.IsInit) (hs : s.Printed sizes exact vars c c')
    (hfollows : Context.Follows exact K c r.context)
    (hsees : r.Sees (s.clauseWords vars ++ .symbol .semicolon :: w :: ws)) :
    initClause.Accepts r fun s' r' => r'.Sees (w :: ws) ∧
      Context.FollowsBy exact K c' r'.context fun L => s.Alike exact L s' := by
  obtain ⟨hread, hprintable, htable, hframes⟩ := hs
  obtain ⟨hself, _⟩ := (Stmt.allPrintable_iff _).mp hprintable
  refine .get ?_
  cases s with
  | empty h =>
    have hnil : h.attributes = [] := hinit
    obtain ⟨L, hle, hfollows', -⟩ := hfollows.refers hread.2.2 (.nil r.context)
      (by simp [hnil])
    refine Accepts.bind (Accepts.acceptKind hsees (by simp)) fun accepted r₁ h₁ => ?_
    obtain ⟨rfl, hsees₁, hcontext⟩ := h₁
    exact .pure ⟨hsees₁, L, hle, hcontext ▸ hfollows', .empty (alikeHeads_of_nil hnil rfl)⟩
  | declaration h ds =>
    obtain ⟨c₁, base, hmarks, hne, hds⟩ := hread
    have hnil : h.attributes = [] := hinit
    rw [hnil] at hmarks
    obtain ⟨⟩ := hmarks.2.2
    have hsees : r.Sees ((baseTypeOf vars ds).word ::
      (Word.separated (ds.map (Declarator.words vars)) ++ .symbol .semicolon :: w :: ws)) := hsees
    refine Accepts.bind (Accepts.acceptKind_other hsees (by simp [BaseType.word, Word.keyword]))
      fun accepted r₁ h₁ => ?_
    obtain ⟨rfl, rfl⟩ := h₁
    have htype : r₁.current.kind.isType = true := by
      rw [hsees.kind_current]
      rfl
    refine .get ?_
    rw [if_pos htype]
    obtain ⟨hvalues, hstars⟩ := hself.of_declaration
    refine (declaration_accepts hne hds htable hframes hvalues hstars hfollows hsees).bind
      fun es r₂ h₂ => .get (.pure ?_)
    obtain ⟨hsees₂, L, hle, hfollows₂, hsame, hfirst⟩ := h₂
    exact ⟨hsees₂, L, hle, hfollows₂, .declaration (alikeHeads_of_nil hnil rfl) hsame hfirst⟩
  | expression h x =>
    obtain ⟨c₁, hmarks, hx⟩ := hread
    have hnil : h.attributes = [] := hinit
    rw [hnil] at hmarks
    obtain ⟨⟩ := hmarks.2.2
    have hapart : x.Apart := hself.values x List.mem_cons_self
    obtain ⟨w', ws', hwords, hstart, _⟩ := Expr.words_start (hx.1 x List.mem_cons_self)
    have hsees : r.Sees (x.words ++ .symbol .semicolon :: w :: ws) := hsees
    have hahead := hsees
    rw [hwords, List.cons_append] at hahead
    have hsemicolon : w'.kind ≠ .symbol .semicolon := fun h => by rw [h] at hstart; cases hstart
    refine Accepts.bind (Accepts.acceptKind_other hahead hsemicolon) fun accepted r₁ h₁ => ?_
    obtain ⟨rfl, rfl⟩ := h₁
    have htype : ¬ r₁.current.kind.isType = true := by
      rw [hahead.kind_current, Token.Kind.isType_of_startsExpr hstart]
      exact Bool.false_ne_true
    refine .get ?_
    rw [if_neg htype]
    refine (expression_rereads hx hapart (Symbol.ends_of_mem (by simp)) hfollows hsees).bind
      fun x' r₂ h₂ => ?_
    obtain ⟨hsees₂, L, hle, hfollows₂, hsame⟩ := h₂
    refine (Accepts.expect _ hsees₂ (by simp)).bind fun _ r₃ h₃ => .pure ⟨h₃.1, L, hle, ?_, ?_⟩
    · rw [h₃.2]
      exact hfollows₂
    · exact .expression (alikeHeads_of_nil hnil rfl) hsame
  | _ => cases hinit

theorem headerAttributes_accepts (hargs : ∀ x ∈ marks.flatMap Attribute.args, x.Readable)
    (hsees : r.Sees (Stmt.headerMarkWords marks ++ .symbol .rightParen :: ws)) :
    headerAttributes.Accepts r fun marks' r' =>
      marks'.map Attribute.shape = marks.map Attribute.shape ∧
        r.context.ReadsMarks marks' r'.context ∧ r'.Sees (.symbol .rightParen :: ws) := by
  have haccepts : headerAttributes.Accepts r fun marks' r' =>
      marks'.map Attribute.shape = marks.map Attribute.shape ∧
        r'.Sees (.symbol .rightParen :: ws) := by
    unfold headerAttributes
    cases marks with
    | nil =>
      refine (Accepts.acceptKind_other hsees (by simp [Word.symbol])).bind fun b r₁ h₁ => ?_
      obtain ⟨rfl, rfl⟩ := h₁
      exact .pure ⟨rfl, hsees⟩
    | cons a marks =>
      have hne : Stmt.markWords (a :: marks) ++ .symbol .rightParen :: ws ≠ [] := by simp
      refine (Accepts.acceptKind hsees hne).bind fun b r₁ h₁ => ?_
      obtain ⟨rfl, hsees₁, _⟩ := h₁
      have hends : EndsMarks (a :: marks) (.symbol .rightParen) :=
        ⟨by simp [Word.symbol], fun _ _ _ => by simp [Word.symbol]⟩
      exact (attributes_accepts hargs hends hsees₁).mono fun _ _ h => ⟨h.1, h.2.2⟩
  exact (haccepts.ensures (headerAttributes_ensures r)).mono fun _ _ h =>
    ⟨h.1.1, h.2.1, h.1.2⟩

/-- Attributes are read again in a header, of which the first ones stood in front of it. Their
variables, read in the scope of the header, need not be the same then. -/
theorem headerMarks_follow {before behind marks' : List Attribute} {d d' : Context}
    (hfollows : Context.Follows exact K c d)
    (hbound : ∀ v ∈ Attribute.refsAll before, c.find? v.name ≠ none)
    (hbefore : exact → Attribute.refsAll before = []) (hbehind : c.ReadsMarks behind c')
    (hmarks' : d.ReadsMarks marks' d')
    (hshape : marks'.map Attribute.shape = (before ++ behind).map Attribute.shape) :
    Context.FollowsBy exact K c' d' fun L => L.Same exact
      (fun σ => (before ++ behind).map (Attribute.relabel σ))
      fun τ => marks'.map (Attribute.relabel τ) := by
  rw [List.map_append] at hshape
  obtain ⟨before', behind', rfl, hshape₁, hshape₂⟩ := List.map_eq_append_iff.mp hshape
  obtain ⟨hnames, hargs, hrefers⟩ := hmarks'
  rw [List.flatMap_append, List.flatMap_append] at hrefers
  obtain ⟨d₁, hrefers₁, hrefers₂⟩ := hrefers.split
  have hnames₁ := Attribute.names_eq_of_shape hshape₁
  have hfind : ∀ v ∈ Attribute.refsAll before', c.find? v.name ≠ none := by
    intro v hv
    have hname : v.name ∈ (Attribute.refsAll before').map VarRef.name := List.mem_map_of_mem hv
    rw [hnames₁] at hname
    obtain ⟨u, hu, heq⟩ := List.mem_map.mp hname
    exact heq ▸ hbound u hu
  obtain ⟨L, _, hle, hfollows₁, -⟩ := hfollows.lateAll hrefers₁ hfind
  obtain ⟨M, hle', hfollows₂, hrefs⟩ :=
    hfollows₁.refers hbehind.2.2 hrefers₂ (Attribute.names_eq_of_shape hshape₂.symm)
  have hsame₁ := Attribute.same_of_shape (K := M) hshape₁.symm (.inr hbefore)
  have hsame₂ : M.Same exact (fun σ => behind.map (Attribute.relabel σ))
      fun τ => behind'.map (Attribute.relabel τ) :=
    Attribute.same_of_shape hshape₂.symm (.inl hrefs)
  refine ⟨M, hle.trans hle', hfollows₂, fun σ τ hagree => ?_⟩
  dsimp only
  rw [List.map_append, List.map_append]
  exact congrArg₂ (· ++ ·) (hsame₁ σ τ hagree) (hsame₂ σ τ hagree)

/-! ## Statements -/

/-- The reader accepts printed statements of at most `n` words. -/
def AcceptsStmts (sizes : Span → List String) (exact : Prop) (vars : VarTable)
    (statement : Parse Stmt) (n : Nat) : Prop :=
  ∀ (K : Pairing) (c c' : Context) (s : Stmt) (r : Reader) (w : Word) (ws : List Word),
    s.Printed sizes exact vars c c' → Context.Follows exact K c r.context →
    (s.words vars).length ≤ n → (s.isOpen = true → w.kind ≠ .keyword .elseBranch) →
    r.Sees (s.words vars ++ w :: ws) → statement.Accepts r fun s' r' => r'.Sees (w :: ws) ∧
      Context.FollowsBy exact K c' r'.context fun L => s.Alike exact L s'

/-- What is left of a block: statements of at most `n` words, printed in the scope of the block. -/
structure StatementsAhead (sizes : Span → List String) (exact : Prop) (vars : VarTable) (n : Nat)
    (c : Context) (ss : List Stmt) (c' : Context) : Prop where
  read : Stmt.ReadAllIn sizes ss c c'
  printable : ∀ s ∈ ss, s.AllPrintable exact vars
  lengths : ∀ s ∈ ss, (s.words vars).length ≤ n
  table : c'.vars.Extends vars
  frames : 3 ≤ c.frames.length

namespace StatementsAhead

variable {n : Nat} {ss : List Stmt}

theorem frames_behind (h : StatementsAhead sizes exact vars n c ss c') : 3 ≤ c'.frames.length :=
  (Context.Passes.of_runWith (Stmt.ReadAllIn.run h.read)).frames ▸ h.frames

theorem tail (h : StatementsAhead sizes exact vars n c (s :: ss) c') :
    ∃ c₁, s.Printed sizes exact vars c c₁ ∧ (s.words vars).length ≤ n ∧
      StatementsAhead sizes exact vars n c₁ ss c' := by
  obtain ⟨⟨c₁, hs, hss⟩, hprintable, hlengths, htable, hframes⟩ := h
  obtain ⟨hprintable, hprintables⟩ := List.forall_mem_cons.mp hprintable
  obtain ⟨hlength, hlengths⟩ := List.forall_mem_cons.mp hlengths
  have htable₁ : c₁.vars.Extends vars :=
    (Context.Passes.of_runWith (Stmt.ReadAllIn.run hss)).table.trans htable
  exact ⟨c₁, ⟨hs, hprintable, htable₁, Nat.le_of_succ_le hframes⟩, hlength, hss, hprintables,
    hlengths, htable, hs.passes.frames ▸ hframes⟩

end StatementsAhead

/-- A condition in parentheses behind its keyword. -/
theorem condition_accepts {x : Expr} {k : Keyword} (place : Place) (hx : c.Reads [x] c')
    (ha : x.Apart) (hfollows : Context.Follows exact K c r.context)
    (hsees : r.Sees (.keyword k :: .symbol .leftParen ::
      (x.words ++ .symbol .rightParen :: w :: ws))) :
    (condition place).Accepts r fun y r' => r'.Sees (w :: ws) ∧
      Context.FollowsBy exact K c' r'.context fun L =>
        L.Same exact (fun σ => x.relabel σ.vars) fun τ => y.relabel τ.vars := by
  refine (Accepts.advance hsees (by simp)).bind fun _ r₁ h₁ => ?_
  obtain ⟨hsees₁, hcontext₁⟩ := h₁
  refine (Accepts.expect _ hsees₁ (by simp)).bind fun _ r₂ h₂ => ?_
  obtain ⟨hsees₂, hcontext₂⟩ := h₂
  rw [← hcontext₁, ← hcontext₂] at hfollows
  refine (expression_rereads hx ha (Symbol.ends_of_mem (by simp)) hfollows hsees₂).bind
    fun y r₃ h₃ => ?_
  obtain ⟨hsees₃, L, hle, hfollows₃, hsame⟩ := h₃
  refine (Accepts.expect _ hsees₃ (by simp)).bind fun _ r₄ h₄ => .pure ⟨h₄.1, L, hle, ?_, hsame⟩
  rw [h₄.2]
  exact hfollows₃

/-- What a function returns, up to the semicolon. -/
theorem optionalValue_accepts {v : Option Expr} (hv : c.Reads v.toList c')
    (ha : ∀ x ∈ v.toList, x.Apart) (hfollows : Context.Follows exact K c r.context)
    (hsees : r.Sees (v.toList.flatMap Expr.words ++ .symbol .semicolon :: ws)) :
    optionalValue.Accepts r fun v' r' => r'.Sees (.symbol .semicolon :: ws) ∧
      Context.FollowsBy exact K c' r'.context fun L =>
        L.Same exact (fun σ => v.map (Expr.relabel σ.vars))
          fun τ => v'.map (Expr.relabel τ.vars) := by
  refine .get ?_
  cases v with
  | none =>
    rw [if_pos ((hsees.seesSymbol_iff .semicolon).mpr rfl)]
    obtain ⟨L, hle, hfollows', -⟩ := hfollows.refers hv.2 (.nil r.context) rfl
    exact .pure ⟨hsees, L, hle, hfollows', .option .none⟩
  | some x =>
    have hx : c.Reads [x] c' := hv
    have hsees : r.Sees (x.words ++ .symbol .semicolon :: ws) := by simpa using hsees
    obtain ⟨w', ws', hwords, hstart, _⟩ := Expr.words_start (hx.1 x List.mem_cons_self)
    have hahead := hsees
    rw [hwords, List.cons_append] at hahead
    have hgo : ¬ r.seesSymbol .semicolon = true := by
      rw [hahead.seesSymbol_iff]
      intro hkind
      rw [hkind] at hstart
      cases hstart
    rw [if_neg hgo]
    refine (expression_rereads hx (ha x (by simp)) (Symbol.ends_of_mem (by simp)) hfollows
      hsees).bind fun x' r₁ h₁ => .pure ?_
    obtain ⟨hsees₁, L, hle, hfollows₁, hsame⟩ := h₁
    exact ⟨hsees₁, L, hle, hfollows₁, .option (.some hsame)⟩

section

variable {statement : Parse Stmt} {h : StmtHead} {marks' : List Attribute}
  (hmarks : K.Same exact (fun σ => h.attributes.map (Attribute.relabel σ))
    fun τ => marks'.map (Attribute.relabel τ))
include hmarks

theorem restOfExpression_accepts {x : Expr} (hx : c.Reads [x] c') (ha : x.Apart)
    (hfollows : Context.Follows exact K c r.context)
    (hsees : r.Sees (x.words ++ .symbol .semicolon :: w :: ws)) :
    (statementRest statement marks').Accepts r fun s' r' => r'.Sees (w :: ws) ∧
      Context.FollowsBy exact K c' r'.context fun L =>
        (Stmt.expression h x).Alike exact L s' := by
  obtain ⟨w', ws', hwords, hstart, _⟩ := Expr.words_start (hx.1 x List.mem_cons_self)
  have hahead := hsees
  rw [hwords, List.cons_append] at hahead
  have hkind : r.current.kind.startsExpr = true := by
    rw [hahead.kind_current]
    exact hstart
  refine .get (.get ?_)
  split
  case h_8 =>
    refine (expression_rereads hx ha (Symbol.ends_of_mem (by simp)) hfollows hsees).bind
      fun x' r₁ h₁ => ?_
    obtain ⟨hsees₁, L, hle, hfollows₁, hsame⟩ := h₁
    refine (Accepts.expect _ hsees₁ (by simp)).bind fun _ r₂ h₂ => .get (.pure ⟨h₂.1, L, hle, ?_, ?_⟩)
    · rw [h₂.2]
      exact hfollows₁
    · exact .expression (hmarks.mono hle) hsame
  all_goals
    next hkind' =>
      rw [hkind'] at hkind
      cases hkind

theorem restOfDeclaration_accepts {ds : List Declarator} {base : BaseType} (hne : ds ≠ [])
    (hds : c.Chain (Declarator.ReadIn sizes base) ds c')
    (hself : (Stmt.declaration h ds).Printable exact vars) (htable : c'.vars.Extends vars)
    (hframes : 2 ≤ c.frames.length) (hfollows : Context.Follows exact K c r.context)
    (hsees : r.Sees (declarationWords vars ds ++ .symbol .semicolon :: w :: ws)) :
    (statementRest statement marks').Accepts r fun s' r' => r'.Sees (w :: ws) ∧
      Context.FollowsBy exact K c' r'.context fun L =>
        (Stmt.declaration h ds).Alike exact L s' := by
  have hahead : r.Sees (.keyword (.type (baseTypeOf vars ds)) ::
    (Word.separated (ds.map (Declarator.words vars)) ++ .symbol .semicolon :: w :: ws)) := hsees
  have hkind : r.current.kind = .keyword (.type (baseTypeOf vars ds)) := hahead.kind_current
  obtain ⟨hvalues, hstars⟩ := hself.of_declaration
  refine .get (.get ?_)
  simp only [hkind]
  refine (declaration_accepts hne hds htable hframes hvalues hstars hfollows hsees).bind
    fun es r₁ h₁ => .get (.pure ?_)
  obtain ⟨hsees₁, L, hle, hfollows₁, hsame, hfirst⟩ := h₁
  exact ⟨hsees₁, L, hle, hfollows₁, .declaration (hmarks.mono hle) hsame hfirst⟩

theorem restOfReturn_accepts {v : Option Expr} (hv : c.Reads v.toList c')
    (ha : ∀ x ∈ v.toList, x.Apart) (hfollows : Context.Follows exact K c r.context)
    (hsees : r.Sees (.keyword .returnValue ::
      (v.toList.flatMap Expr.words ++ .symbol .semicolon :: w :: ws))) :
    (statementRest statement marks').Accepts r fun s' r' => r'.Sees (w :: ws) ∧
      Context.FollowsBy exact K c' r'.context fun L => (Stmt.returns h v).Alike exact L s' := by
  have hkind : r.current.kind = .keyword .returnValue := hsees.kind_current
  refine .get (.get ?_)
  simp only [hkind]
  refine (Accepts.advance hsees (by simp)).bind fun _ r₁ h₁ => ?_
  obtain ⟨hsees₁, hcontext₁⟩ := h₁
  rw [← hcontext₁] at hfollows
  refine (optionalValue_accepts hv ha hfollows hsees₁).bind fun v' r₂ h₂ => ?_
  obtain ⟨hsees₂, L, hle, hfollows₂, hsame⟩ := h₂
  refine (Accepts.expect _ hsees₂ (by simp)).bind fun _ r₃ h₃ => .get (.pure ⟨h₃.1, L, hle, ?_, ?_⟩)
  · rw [h₃.2]
    exact hfollows₂
  · exact .returns (hmarks.mono hle) hsame

theorem restOfEmpty_accepts (hfollows : Context.Follows exact K c r.context)
    (hsees : r.Sees (.symbol .semicolon :: w :: ws)) :
    (statementRest statement marks').Accepts r fun s' r' => r'.Sees (w :: ws) ∧
      Context.FollowsBy exact K c r'.context fun L => (Stmt.empty h).Alike exact L s' := by
  have hkind : r.current.kind = .symbol .semicolon := hsees.kind_current
  refine .get (.get ?_)
  simp only [hkind]
  refine (Accepts.advance hsees (by simp)).bind fun _ r₁ h₁ => .get (.pure ⟨h₁.1, K, .refl K, ?_, ?_⟩)
  · rw [h₁.2]
    exact hfollows
  · exact .empty hmarks

end

section

variable {statement : Parse Stmt} {n : Nat}
  (hstatement : AcceptsStmts sizes exact vars statement n)
include hstatement

/-- What follows the opening parenthesis of a printed loop. -/
theorem forRest_accepts {i k u b : Stmt} {before behind : List Attribute} {c₃ c₄ c₅ : Context}
    (hloop : Stmt.LoopAhead sizes exact vars i k u b before behind c c₁ c₂ c₃ c₄ c₅)
    (hfollows : Context.Follows exact K c r.context) (hlength : (b.words vars).length ≤ n)
    (hopen : b.isOpen = true → w.kind ≠ .keyword .elseBranch)
    (hsees : r.Sees (i.clauseWords vars ++ .symbol .semicolon ::
      (k.clauseWords vars ++ .symbol .semicolon :: (u.clauseWords vars ++
        (Stmt.headerMarkWords (before ++ behind) ++ .symbol .rightParen ::
          (b.words vars ++ w :: ws)))))) :
    (forRest statement).Accepts r fun p r' => r'.Sees (w :: ws) ∧
      Context.FollowsBy exact K c₅ r'.context fun L =>
        L.Same exact (fun σ => (before ++ behind).map (Attribute.relabel σ))
          (fun τ => p.1.map (Attribute.relabel τ)) ∧
        i.Alike exact L p.2.init ∧ k.Alike exact L p.2.check ∧ u.Alike exact L p.2.update ∧
        b.Alike exact L p.2.body := by
  obtain ⟨hi, hk, hu, hargs, hbound, hbefore, hbehind, hb⟩ := hloop
  obtain ⟨w₁, ws₁, hahead₁⟩ : ∃ w₁ ws₁, k.clauseWords vars ++ .symbol .semicolon ::
      (u.clauseWords vars ++ (Stmt.headerMarkWords (before ++ behind) ++
        .symbol .rightParen :: (b.words vars ++ w :: ws))) = w₁ :: ws₁ :=
    List.exists_cons_of_ne_nil (by simp)
  obtain ⟨w₂, ws₂, hahead₂⟩ : ∃ w₂ ws₂, u.clauseWords vars ++
      (Stmt.headerMarkWords (before ++ behind) ++ .symbol .rightParen ::
        (b.words vars ++ w :: ws)) = w₂ :: ws₂ :=
    List.exists_cons_of_ne_nil (by simp)
  obtain ⟨y, ws₃, hy, hahead₃⟩ : ∃ y ws₃, y ∈ [Symbol.rightParen, .semicolon] ∧
      Stmt.headerMarkWords (before ++ behind) ++ .symbol .rightParen :: (b.words vars ++ w :: ws) =
        .symbol y :: ws₃ := by
    unfold Stmt.headerMarkWords
    split
    · exact ⟨.rightParen, _, by simp, rfl⟩
    · exact ⟨.semicolon, _, by simp, rfl⟩
  unfold forRest
  rw [hahead₁] at hsees
  refine (initClause_accepts hi.1 hi.2 hfollows hsees).bind fun i' r₁ h₁ => ?_
  obtain ⟨hsees₁, K₁, hle₁, hfollows₁, hi'⟩ := h₁
  rw [← hahead₁] at hsees₁
  refine (clause_accepts hk.1 hk.2.read hk.2.printable (by simp) ⟨.semicolon, by simp, rfl⟩ hfollows₁
    hsees₁).bind fun k' r₂ h₂ => ?_
  obtain ⟨hsees₂, K₂, hle₂, hfollows₂, hk'⟩ := h₂
  rw [hahead₂] at hsees₂
  refine (Accepts.expect _ hsees₂ (by simp)).bind fun _ r₃ h₃ => ?_
  obtain ⟨hsees₃, hcontext₃⟩ := h₃
  rw [← hcontext₃] at hfollows₂
  rw [← hahead₂, hahead₃] at hsees₃
  refine (clause_accepts hu.1 hu.2.read hu.2.printable (by simp) ⟨y, hy, rfl⟩ hfollows₂
    hsees₃).bind fun u' r₄ h₄ => ?_
  obtain ⟨hsees₄, K₄, hle₄, hfollows₄, hu'⟩ := h₄
  rw [← hahead₃] at hsees₄
  refine (headerAttributes_accepts hargs hsees₄).bind fun marks' r₅ h₅ => ?_
  obtain ⟨hshape, hmarks', hsees₅⟩ := h₅
  obtain ⟨K₅, hle₅, hfollows₅, hsame⟩ :=
    headerMarks_follow hfollows₄ hbound hbefore hbehind hmarks' hshape
  refine (Accepts.expect _ hsees₅ (by simp)).bind fun _ r₆ h₆ => ?_
  obtain ⟨hsees₆, hcontext₆⟩ := h₆
  rw [← hcontext₆] at hfollows₅
  refine (hstatement K₅ c₄ c₅ b r₆ w ws hb hfollows₅ hlength hopen hsees₆).bind
    fun b' r₇ h₇ => .pure ?_
  obtain ⟨hsees₇, L, hle₇, hfollows₇, hb'⟩ := h₇
  have hle : K.Le L := hle₁.trans (hle₂.trans (hle₄.trans (hle₅.trans hle₇)))
  have hi' := hi'.mono (hle₂.trans (hle₄.trans (hle₅.trans hle₇)))
  have hk' := hk'.mono (hle₄.trans (hle₅.trans hle₇))
  have hu' := hu'.mono (hle₅.trans hle₇)
  exact ⟨hsees₇, L, hle, hfollows₇, hsame.mono hle₇, hi', hk', hu', hb'⟩

theorem forStatement_accepts {h : StmtHead} {i k u b : Stmt}
    (hs : (Stmt.forLoop h i k u b).Printed sizes exact vars c c')
    (hfollows : Context.Follows exact K c r.context) (hlength : (b.words vars).length ≤ n)
    (hopen : b.isOpen = true → w.kind ≠ .keyword .elseBranch)
    (hsees : r.Sees ((Stmt.forLoop h i k u b).words vars ++ w :: ws)) :
    (forStatement statement []).Accepts r fun s' r' => r'.Sees (w :: ws) ∧
      Context.FollowsBy exact K c' r'.context fun L =>
        (Stmt.forLoop h i k u b).Alike exact L s' := by
  obtain ⟨before, behind, c₁, c₂, c₃, c₄, c₅, c₆, hattributes, hmarks, hloop, rfl⟩ :=
    hs.loopAhead hfollows.left
  have hfollows₁ := hfollows.dropAll hmarks.2.2 hs.frames
  have hsees : r.Sees (.keyword .forLoop :: .symbol .leftParen ::
      (i.clauseWords vars ++ .symbol .semicolon :: (k.clauseWords vars ++ .symbol .semicolon ::
        (u.clauseWords vars ++ (Stmt.headerMarkWords (before ++ behind) ++ .symbol .rightParen ::
          (b.words vars ++ w :: ws)))))) := by
    simpa [Stmt.words, hattributes] using hsees
  refine .get ((Accepts.advance hsees (by simp)).bind fun _ r₁ h₁ => ?_)
  obtain ⟨hsees₁, hcontext₁⟩ := h₁
  refine (Accepts.expect _ hsees₁ (by simp)).bind fun _ r₂ h₂ => ?_
  obtain ⟨hsees₂, hcontext₂⟩ := h₂
  rw [← hcontext₁, ← hcontext₂] at hfollows₁
  have hrest (r₃ : Reader) (hremaining : r₃.remaining = r₂.remaining)
      (hcontext : r₃.context = r₂.context.push) :=
    forRest_accepts hstatement hloop (hcontext ▸ hfollows₁.push) hlength hopen
      (hsees₂.of_remaining hremaining)
  refine (Accepts.inScope hrest).bind fun p r₄ h₄ => ?_
  obtain ⟨r₅, ⟨hsees₅, L, hle, hfollows₅, hsame, hparts⟩, hcontext, hremaining⟩ := h₄
  refine .get (.pure ⟨hsees₅.of_remaining hremaining, L, hle, ?_, ?_⟩)
  · rw [hcontext]
    exact hfollows₅.pop (hloop.body.read.passes.frames ▸ hloop.body.frames)
  · obtain ⟨hi, hk, hu, hb⟩ := hparts
    refine .forLoop ?_ hi hk hu hb
    unfold Stmt.AlikeHeads
    rw [hattributes, List.nil_append]
    exact hsame

/-! ## Blocks -/

theorem blockItem_accepts (hs : s.Printed sizes exact vars c c')
    (hfollows : Context.Follows exact K c r.context) (hlength : (s.words vars).length ≤ n)
    (hw : w.kind ≠ .keyword .elseBranch) (hsees : r.Sees (s.words vars ++ w :: ws)) :
    (blockItem statement).Accepts r fun o r' => ∃ o', o = some o' ∧ r'.Sees (w :: ws) ∧
      Context.FollowsBy exact K c' r'.context fun L =>
        Option.Rel (Stmt.Alike exact L) (some s) o' := by
  obtain ⟨w₁, ws₁, hwords, hstart⟩ := Stmt.exists_start hs.read vars
  have hahead := hsees
  rw [hwords, List.cons_append] at hahead
  have hgo : ¬ (r.seesSymbol .rightBrace || r.atEnd) = true := by
    rw [Bool.or_eq_true, hahead.seesSymbol_iff]
    rintro (h | h)
    · exact hstart.rightBrace h
    · rw [Reader.atEnd, Token.isEnd, hahead.kind_current] at h
      exact hstart.endOfFile (eq_of_beq h)
  refine .get ?_
  rw [if_neg hgo]
  refine ((hstatement K c c' s r w ws hs hfollows hlength (fun _ => hw) hsees).recovering _).bind
    fun o r₁ h₁ => .pure ?_
  obtain ⟨s', rfl, hsees₁, L, hle, hfollows₁, halike⟩ := h₁
  exact ⟨some s', rfl, hsees₁, L, hle, hfollows₁, .some halike⟩

omit hstatement in
theorem blockItem_stops (hsees : r.Sees (.symbol .rightBrace :: ws)) :
    (blockItem statement).Accepts r fun o r' => o = none ∧ r' = r := by
  refine .get ?_
  rw [if_pos (by simp [(hsees.seesSymbol_iff .rightBrace).mpr rfl])]
  exact .pure ⟨rfl, rfl⟩

/-- Statements between braces. -/
theorem block_accepts {ss : List Stmt} (hss : StatementsAhead sizes exact vars n c.push ss c')
    (hfollows : Context.Follows exact K c r.context)
    (hsees : r.Sees (.symbol .leftBrace ::
      (Stmt.wordsAll vars ss ++ .symbol .rightBrace :: w :: ws))) :
    (block statement).Accepts r fun b r' => r'.Sees (w :: ws) ∧
      Context.FollowsBy exact K c'.pop r'.context fun L =>
        List.Forall₂ (Stmt.Alike exact L) ss b.statements := by
  have hstart : ∀ s ∈ ss, ∃ w' ws', s.words vars = w' :: ws' ∧ w'.kind ≠ .keyword .elseBranch := by
    intro s hs
    obtain ⟨_, _, _, _, hread⟩ := Stmt.isRead_of_readAllIn hss.read hfollows.left.push s hs
    obtain ⟨w', ws', hwords, hw'⟩ := Stmt.exists_start hread vars
    exact ⟨w', ws', hwords, hw'.elseBranch⟩
  have hitems (r₁ : Reader) (hfollows : Context.Follows exact K c.push r₁.context)
      (hsees : r₁.Sees (ss.flatMap (Stmt.words vars) ++ .symbol .rightBrace :: w :: ws)) :
      (many (blockItem statement)).Accepts r₁ fun items r' =>
        r'.Sees (.symbol .rightBrace :: w :: ws) ∧ Context.FollowsBy exact K c' r'.context fun L =>
          List.Forall₂ (fun s => Option.Rel (Stmt.Alike exact L) (some s)) ss items := by
    refine Accepts.many_follows (P := fun c ss => StatementsAhead sizes exact vars n c ss c')
      (B := fun w => w.kind ≠ .keyword .elseBranch)
      ⟨fun hle h => (Stmt.Alike.lasting exact).option.mono hle h⟩ ?_ (fun h => h.read.symm)
      blockItem_stops (by simp [Word.symbol]) hstart hss hfollows hsees
    intro K c s ss r w' ws' hss hfollows hw' hsees
    obtain ⟨c₁, hs, hlength, hrest⟩ := hss.tail
    refine (blockItem_accepts hstatement hs hfollows hlength hw' hsees).mono fun o r' ho => ?_
    obtain ⟨o', rfl, hsees', hfollows'⟩ := ho
    exact ⟨o', c₁, rfl, hsees', hrest, hfollows'⟩
  rw [Stmt.wordsAll_eq] at hsees
  refine .get ((Accepts.expect _ hsees (by simp)).bind fun _ r₁ h₁ => ?_)
  obtain ⟨hsees₁, hcontext₁⟩ := h₁
  rw [← hcontext₁] at hfollows
  have hinside (r₂ : Reader) (hremaining : r₂.remaining = r₁.remaining)
      (hcontext : r₂.context = r₁.context.push) :=
    hitems r₂ (hcontext ▸ hfollows.push) (hsees₁.of_remaining hremaining)
  refine (Accepts.inScope hinside).bind fun items r₂ h₂ => ?_
  obtain ⟨r₃, ⟨hsees₃, L, hle, hfollows₃, hall⟩, hcontext, hremaining⟩ := h₂
  refine (Accepts.expect _ (hsees₃.of_remaining hremaining) (by simp)).bind fun _ r₄ h₄ => ?_
  refine .get (.pure ?_)
  obtain ⟨hsees₄, hcontext₄⟩ := h₄
  refine ⟨hsees₄, L, hle, ?_, forall₂_filterMap_some hall⟩
  rw [hcontext₄, hcontext]
  exact hfollows₃.pop (Nat.le_of_succ_le hss.frames_behind)

section

variable {h : StmtHead} {marks' : List Attribute}
  (hmarks : K.Same exact (fun σ => h.attributes.map (Attribute.relabel σ))
    fun τ => marks'.map (Attribute.relabel τ))
include hmarks

theorem restOfBlock_accepts {ss : List Stmt}
    (hss : StatementsAhead sizes exact vars n c.push ss c')
    (hfollows : Context.Follows exact K c r.context)
    (hsees : r.Sees (.symbol .leftBrace ::
      (Stmt.wordsAll vars ss ++ .symbol .rightBrace :: w :: ws))) :
    (statementRest statement marks').Accepts r fun s' r' => r'.Sees (w :: ws) ∧
      Context.FollowsBy exact K c'.pop r'.context fun L => (Stmt.block h ss).Alike exact L s' := by
  have hkind : r.current.kind = .symbol .leftBrace := hsees.kind_current
  refine .get (.get ?_)
  simp only [hkind]
  refine (block_accepts hstatement hss hfollows hsees).bind fun b r₁ h₁ => .get (.pure ?_)
  obtain ⟨hsees₁, L, hle, hfollows₁, hall⟩ := h₁
  exact ⟨hsees₁, L, hle, hfollows₁, .block (hmarks.mono hle) hall⟩

omit hmarks in
/-- A condition with the statement that it governs, whatever is read behind them. -/
theorem governed_accepts {α : Type} {x : Expr} {s : Stmt} {k : Keyword} {place : Place}
    {next : Expr → Stmt → Parse α} {Q : α → Reader → Prop} (hx : c.Reads [x] c₁) (ha : x.Apart)
    (hs : s.Printed sizes exact vars c₁ c') (hlength : (s.words vars).length ≤ n)
    (hopen : s.isOpen = true → w.kind ≠ .keyword .elseBranch)
    (hfollows : Context.Follows exact K c r.context)
    (hsees : r.Sees (.keyword k :: .symbol .leftParen ::
      (x.words ++ .symbol .rightParen :: (s.words vars ++ w :: ws))))
    (hnext : ∀ (L : Pairing) (y : Expr) (s' : Stmt) (r₁ : Reader), K.Le L → r₁.Sees (w :: ws) →
      Context.Follows exact L c' r₁.context →
      L.Same exact (fun σ => x.relabel σ.vars) (fun τ => y.relabel τ.vars) →
      s.Alike exact L s' → (next y s').Accepts r₁ Q) :
    (do let y ← condition place; let s' ← statement; next y s').Accepts r Q := by
  obtain ⟨w', ws', hahead, _⟩ := Stmt.exists_start hs.read vars
  rw [hahead, List.cons_append] at hsees
  refine (condition_accepts _ hx ha hfollows hsees).bind fun y r₁ h₁ => ?_
  obtain ⟨hsees₁, L, hle, hfollows₁, hsame⟩ := h₁
  rw [← List.cons_append, ← hahead] at hsees₁
  refine (hstatement L c₁ c' s r₁ w ws hs hfollows₁ hlength hopen hsees₁).bind fun s' r₂ h₂ => ?_
  obtain ⟨hsees₂, M, hle', hfollows₂, halike⟩ := h₂
  exact hnext M y s' r₂ (hle.trans hle') hsees₂ hfollows₂ (hsame.mono hle') halike

theorem restOfWhile_accepts {x : Expr} {b : Stmt} (hx : c.Reads [x] c₁) (ha : x.Apart)
    (hb : b.Printed sizes exact vars c₁ c') (hlength : (b.words vars).length ≤ n)
    (hopen : b.isOpen = true → w.kind ≠ .keyword .elseBranch)
    (hfollows : Context.Follows exact K c r.context)
    (hsees : r.Sees (.keyword .whileLoop :: .symbol .leftParen ::
      (x.words ++ .symbol .rightParen :: (b.words vars ++ w :: ws)))) :
    (statementRest statement marks').Accepts r fun s' r' => r'.Sees (w :: ws) ∧
      Context.FollowsBy exact K c' r'.context fun L =>
        (Stmt.whileLoop h x b).Alike exact L s' := by
  have hkind : r.current.kind = .keyword .whileLoop := hsees.kind_current
  refine .get (.get ?_)
  simp only [hkind]
  refine governed_accepts hstatement hx ha hb hlength hopen hfollows hsees
    fun L x' b' r₁ hle hsees₁ hfollows₁ hsame halike => .get (.pure ?_)
  exact ⟨hsees₁, L, hle, hfollows₁, .whileLoop (hmarks.mono hle) hsame halike⟩

theorem restOfIf_accepts {x : Expr} {t : Stmt} (hx : c.Reads [x] c₁) (ha : x.Apart)
    (ht : t.Printed sizes exact vars c₁ c') (hlength : (t.words vars).length ≤ n)
    (helse : w.kind ≠ .keyword .elseBranch) (hfollows : Context.Follows exact K c r.context)
    (hsees : r.Sees (.keyword .ifThen :: .symbol .leftParen ::
      (x.words ++ .symbol .rightParen :: (t.words vars ++ w :: ws)))) :
    (statementRest statement marks').Accepts r fun s' r' => r'.Sees (w :: ws) ∧
      Context.FollowsBy exact K c' r'.context fun L => (Stmt.ifThen h x t).Alike exact L s' := by
  have hkind : r.current.kind = .keyword .ifThen := hsees.kind_current
  refine .get (.get ?_)
  simp only [hkind]
  refine governed_accepts hstatement hx ha ht hlength (fun _ => helse) hfollows hsees
    fun L x' t' r₁ hle hsees₁ hfollows₁ hsame halike => ?_
  refine (Accepts.acceptKind_other hsees₁ helse).bind fun accepted r₂ h₂ => ?_
  obtain ⟨rfl, rfl⟩ := h₂
  exact .get (.pure ⟨hsees₁, L, hle, hfollows₁, .ifThen (hmarks.mono hle) hsame halike⟩)

/-- The first branch is closed, so that `else` goes with this statement. -/
theorem restOfIfElse_accepts {x : Expr} {t e : Stmt} (hx : c.Reads [x] c₁) (ha : x.Apart)
    (hclosed : t.isOpen = false) (ht : t.Printed sizes exact vars c₁ c₂)
    (he : e.Printed sizes exact vars c₂ c')
    (hlengths : (t.words vars).length ≤ n ∧ (e.words vars).length ≤ n)
    (hopen : e.isOpen = true → w.kind ≠ .keyword .elseBranch)
    (hfollows : Context.Follows exact K c r.context)
    (hsees : r.Sees (.keyword .ifThen :: .symbol .leftParen :: (x.words ++ .symbol .rightParen ::
      (t.words vars ++ .keyword .elseBranch :: (e.words vars ++ w :: ws))))) :
    (statementRest statement marks').Accepts r fun s' r' => r'.Sees (w :: ws) ∧
      Context.FollowsBy exact K c' r'.context fun L =>
        (Stmt.ifElse h x t e).Alike exact L s' := by
  have hkind : r.current.kind = .keyword .ifThen := hsees.kind_current
  have hthen : t.isOpen = true → (Word.keyword .elseBranch).kind ≠ .keyword .elseBranch :=
    fun h => by rw [hclosed] at h; cases h
  refine .get (.get ?_)
  simp only [hkind]
  refine governed_accepts hstatement hx ha ht hlengths.1 hthen hfollows hsees
    fun L x' t' r₁ hle hsees₁ hfollows₁ hsame htalike => ?_
  refine (Accepts.acceptKind hsees₁ (by simp)).bind fun accepted r₂ h₂ => ?_
  obtain ⟨rfl, hsees₂, hcontext₂⟩ := h₂
  rw [← hcontext₂] at hfollows₁
  refine (hstatement L c₂ c' e r₂ w ws he hfollows₁ hlengths.2 hopen hsees₂).bind
    fun e' r₃ h₃ => .get (.pure ?_)
  obtain ⟨hsees₃, M, hle', hfollows₃, healike⟩ := h₃
  exact ⟨hsees₃, M, hle.trans hle', hfollows₃, .ifElse (hmarks.mono (hle.trans hle'))
    (hsame.mono hle') (htalike.mono hle') healike⟩

end

end

/-- A statement behind its attributes. -/
theorem marked_accepts {statement : Parse Stmt} {P : Stmt → Pairing → Prop} {w' : Word}
    {ws' : List Word} (hmarks : c.ReadsMarks marks c₁)
    (ha : ∀ x ∈ marks.flatMap Attribute.args, x.Apart) (hw' : EndsMarks marks w')
    (hfollows : Context.Follows exact K c r.context)
    (hsees : r.Sees (Stmt.markWords marks ++ w' :: ws'))
    (hrest : ∀ (L : Pairing) (marks' : List Attribute) (r₁ : Reader),
      L.Same exact (fun σ => marks.map (Attribute.relabel σ))
        (fun τ => marks'.map (Attribute.relabel τ)) →
      Context.Follows exact L c₁ r₁.context → r₁.Sees (w' :: ws') →
      (statementRest statement marks').Accepts r₁ fun s' r' => r'.Sees (w :: ws) ∧
        Context.FollowsBy exact L c' r'.context (P s')) :
    (attributes >>= statementRest statement).Accepts r fun s' r' => r'.Sees (w :: ws) ∧
      Context.FollowsBy exact K c' r'.context (P s') := by
  have hreadable : ∀ x ∈ marks.flatMap Attribute.args, x.Readable :=
    fun x hx => ⟨hmarks.2.1 x hx, ha x hx⟩
  refine (attributes_accepts hreadable hw' hsees).bind fun marks' r₁ h₁ => ?_
  obtain ⟨hshape, hmarks', hsees₁⟩ := h₁
  obtain ⟨L, hle, hfollows₁, hsame⟩ := marks_follow hfollows hmarks hmarks' hshape
  refine (hrest L marks' r₁ hsame hfollows₁ hsees₁).mono fun s' r' h => ?_
  obtain ⟨hsees', M, hle', hfollows', hp⟩ := h
  exact ⟨hsees', M, hle.trans hle', hfollows', hp⟩

/-! ## Statements with their attributes -/

/-- The statement is accepted with its attributes if it has at most `n + 1` words. -/
def AcceptsMarked (sizes : Span → List String) (exact : Prop) (vars : VarTable)
    (statement : Parse Stmt) (n : Nat) (s : Stmt) : Prop :=
  ∀ (K : Pairing) (c c' : Context) (r : Reader) (w : Word) (ws : List Word),
    s.Printed sizes exact vars c c' → Context.Follows exact K c r.context →
    (s.words vars).length ≤ n + 1 → (s.isOpen = true → w.kind ≠ .keyword .elseBranch) →
    r.Sees (s.words vars ++ w :: ws) →
    (attributes >>= statementRest statement).Accepts r fun s' r' => r'.Sees (w :: ws) ∧
      Context.FollowsBy exact K c' r'.context fun L => s.Alike exact L s'

theorem endsMarks_keyword (marks : List Attribute) (k : Keyword) : EndsMarks marks (.keyword k) :=
  ⟨by simp [Word.keyword], fun _ _ _ => by simp [Word.keyword]⟩

section

variable {n : Nat} {statement : Parse Stmt} {h : StmtHead}

theorem markedReturn_accepts {v : Option Expr} :
    AcceptsMarked sizes exact vars statement n (.returns h v) := by
  intro K c c' r w ws hs hfollows hlength hopen hsees
  obtain ⟨⟨c₁, hmarks, hv⟩, hself, -⟩ := hs.parts
  have hsees : r.Sees (Stmt.markWords h.attributes ++ .keyword .returnValue ::
      (v.toList.flatMap Expr.words ++ .symbol .semicolon :: w :: ws)) := by
    simpa [Stmt.words] using hsees
  refine marked_accepts hmarks hself.marks (endsMarks_keyword _ _) hfollows hsees
    fun L marks' r₁ hsame hfollows₁ hsees₁ => ?_
  exact restOfReturn_accepts hsame hv hself.values hfollows₁ hsees₁

theorem markedDeclaration_accepts {ds : List Declarator} :
    AcceptsMarked sizes exact vars statement n (.declaration h ds) := by
  intro K c c' r w ws hs hfollows hlength hopen hsees
  obtain ⟨⟨c₁, base, hmarks, hne, hds⟩, hself, -, htable, hframes⟩ := hs.parts
  have hsees : r.Sees (Stmt.markWords h.attributes ++ .keyword (.type (baseTypeOf vars ds)) ::
      (Word.separated (ds.map (Declarator.words vars)) ++ .symbol .semicolon :: w :: ws)) := by
    simpa [Stmt.words, declarationWords, BaseType.word] using hsees
  refine marked_accepts hmarks hself.marks (endsMarks_keyword _ _) hfollows hsees
    fun L marks' r₁ hsame hfollows₁ hsees₁ => ?_
  exact restOfDeclaration_accepts hsame hne hds hself htable
    (hmarks.2.passes.frames ▸ hframes) hfollows₁ hsees₁

/-- The expression does not look like arguments of the last attribute. -/
theorem markedExpression_accepts {x : Expr} :
    AcceptsMarked sizes exact vars statement n (.expression h x) := by
  intro K c c' r w ws hs hfollows hlength hopen hsees
  obtain ⟨⟨c₁, hmarks, hx⟩, hself, -⟩ := hs.parts
  have hsees : r.Sees (Stmt.markWords h.attributes ++
      (x.words ++ .symbol .semicolon :: w :: ws)) := by
    simpa [Stmt.words] using hsees
  obtain ⟨w', ws', hwords, hstart, _⟩ := Expr.words_start (hx.1 x List.mem_cons_self)
  have hw' : EndsMarks h.attributes w' := by
    refine ⟨fun hat => ?_, fun a ha hargs hparen => ?_⟩
    · rw [hat] at hstart
      cases hstart
    · have hhead := Expr.head?_text (hx.1 x List.mem_cons_self) hwords hparen
      have hself := hself.arguments
      have hlast : h.attributes.getLast? = some a := ha
      simp [Stmt.takesArguments, hlast, hargs, hhead] at hself
  rw [hwords, List.cons_append] at hsees
  refine marked_accepts hmarks hself.marks hw' hfollows hsees
    fun L marks' r₁ hsame hfollows₁ hsees₁ => ?_
  rw [← List.cons_append, ← hwords] at hsees₁
  exact restOfExpression_accepts hsame hx (hself.values x List.mem_cons_self) hfollows₁ hsees₁

theorem markedEmpty_accepts : AcceptsMarked sizes exact vars statement n (.empty h) := by
  intro K c c' r w ws hs hfollows hlength hopen hsees
  obtain ⟨hread, hself, -⟩ := hs.parts
  have hsemicolon : EndsMarks h.attributes (.symbol .semicolon) :=
    ⟨by simp [Word.symbol], fun _ _ _ => by simp [Word.symbol]⟩
  have hsees : r.Sees (Stmt.markWords h.attributes ++ .symbol .semicolon :: w :: ws) := by
    simpa [Stmt.words] using hsees
  refine marked_accepts hread hself.marks hsemicolon hfollows hsees
    fun L marks' r₁ hsame hfollows₁ hsees₁ => ?_
  exact restOfEmpty_accepts hsame hfollows₁ hsees₁

variable (hstatement : AcceptsStmts sizes exact vars statement n)
include hstatement

/-- All attributes of a loop stand in its header, none in front of it. -/
theorem markedFor_accepts {i k u b : Stmt} :
    AcceptsMarked sizes exact vars statement n (.forLoop h i k u b) := by
  intro K c c' r w ws hs hfollows hlength hopen hsees
  have hlength : (b.words vars).length ≤ n := by
    simp only [Stmt.words, List.length_cons, List.length_append] at hlength
    omega
  have hnone : r.Sees (Stmt.markWords [] ++ .keyword .forLoop :: _) := hsees
  refine (attributes_accepts (by simp) ⟨by simp [Word.keyword], by simp⟩ hnone).bind
    fun marks' r₁ h₁ => ?_
  obtain ⟨hshape, hmarks', hsees₁⟩ := h₁
  obtain rfl : marks' = [] := List.map_eq_nil_iff.mp hshape
  have hcontext : r.context = r₁.context := by
    obtain ⟨_, _, hrefers⟩ := hmarks'
    generalize r₁.context = d at hrefers
    cases hrefers
    rfl
  have hkind : r₁.current.kind = .keyword .forLoop := hsees₁.kind_current
  refine .get (.get ?_)
  simp only [hkind]
  exact forStatement_accepts hstatement hs (hcontext ▸ hfollows) hlength hopen hsees₁

theorem markedBlock_accepts {ss : List Stmt} :
    AcceptsMarked sizes exact vars statement n (.block h ss) := by
  intro K c c' r w ws hs hfollows hlength hopen hsees
  obtain ⟨⟨c₁, c₂, hmarks, hss, rfl⟩, hself, hbelow, htable, hframes⟩ := hs.parts
  have hlengths : ∀ s ∈ ss, (s.words vars).length ≤ n := by
    intro s hs
    have hle := length_le_flatMap (f := Stmt.words vars) hs
    simp only [Stmt.words, List.length_cons, List.length_append, Stmt.wordsAll_eq] at hlength
    omega
  have hbrace : EndsMarks h.attributes (.symbol .leftBrace) :=
    ⟨by simp [Word.symbol], fun _ _ _ => by simp [Word.symbol]⟩
  have hsees : r.Sees (Stmt.markWords h.attributes ++ .symbol .leftBrace ::
      (Stmt.wordsAll vars ss ++ .symbol .rightBrace :: w :: ws)) := by
    simpa [Stmt.words] using hsees
  refine marked_accepts hmarks hself.marks hbrace hfollows hsees
    fun L marks' r₁ hsame hfollows₁ hsees₁ => ?_
  have hpush : 3 ≤ c₁.push.frames.length := Nat.succ_le_succ (hmarks.2.passes.frames ▸ hframes)
  exact restOfBlock_accepts hstatement hsame ⟨hss, hbelow, hlengths, htable, hpush⟩ hfollows₁ hsees₁

theorem markedIf_accepts {x : Expr} {t : Stmt} :
    AcceptsMarked sizes exact vars statement n (.ifThen h x t) := by
  intro K c c' r w ws hs hfollows hlength hopen hsees
  obtain ⟨⟨c₁, c₂, hmarks, hx, ht⟩, hself, hbelow, htable, hframes⟩ := hs.parts
  have hlength : (t.words vars).length ≤ n := by
    simp only [Stmt.words, List.length_cons, List.length_append] at hlength
    omega
  have hframes₂ : 2 ≤ c₂.frames.length := (hmarks.2.passes.trans hx.passes).frames ▸ hframes
  have hsees : r.Sees (Stmt.markWords h.attributes ++ .keyword .ifThen :: .symbol .leftParen ::
      (x.words ++ .symbol .rightParen :: (t.words vars ++ w :: ws))) := by
    simpa [Stmt.words] using hsees
  refine marked_accepts hmarks hself.marks (endsMarks_keyword _ _) hfollows hsees
    fun L marks' r₁ hsame hfollows₁ hsees₁ => ?_
  exact restOfIf_accepts hstatement hsame hx (hself.values x List.mem_cons_self)
    ⟨ht, hbelow t (by simp [Stmt.children]), htable, hframes₂⟩ hlength (hopen rfl) hfollows₁ hsees₁

theorem markedIfElse_accepts {x : Expr} {t e : Stmt} :
    AcceptsMarked sizes exact vars statement n (.ifElse h x t e) := by
  intro K c c' r w ws hs hfollows hlength hopen hsees
  obtain ⟨⟨c₁, c₂, c₃, hmarks, hx, ⟨hclosed, ht⟩, he⟩, hself, hbelow, htable, hframes⟩ := hs.parts
  have hlengths : (t.words vars).length ≤ n ∧ (e.words vars).length ≤ n := by
    simp only [Stmt.words, List.length_cons, List.length_append] at hlength
    omega
  have hframes₂ : 2 ≤ c₂.frames.length := (hmarks.2.passes.trans hx.passes).frames ▸ hframes
  have hframes₃ : 2 ≤ c₃.frames.length := ht.passes.frames ▸ hframes₂
  have htable₃ : c₃.vars.Extends vars := he.passes.table.trans htable
  have hsees : r.Sees (Stmt.markWords h.attributes ++ .keyword .ifThen :: .symbol .leftParen ::
      (x.words ++ .symbol .rightParen :: (t.words vars ++ .keyword .elseBranch ::
        (e.words vars ++ w :: ws)))) := by
    simpa [Stmt.words] using hsees
  refine marked_accepts hmarks hself.marks (endsMarks_keyword _ _) hfollows hsees
    fun L marks' r₁ hsame hfollows₁ hsees₁ => ?_
  exact restOfIfElse_accepts hstatement hsame hx (hself.values x List.mem_cons_self) hclosed
    ⟨ht, hbelow t (by simp [Stmt.children]), htable₃, hframes₂⟩
    ⟨he, hbelow e (by simp [Stmt.children]), htable, hframes₃⟩ hlengths hopen hfollows₁ hsees₁

theorem markedWhile_accepts {x : Expr} {b : Stmt} :
    AcceptsMarked sizes exact vars statement n (.whileLoop h x b) := by
  intro K c c' r w ws hs hfollows hlength hopen hsees
  obtain ⟨⟨c₁, c₂, hmarks, hx, hb⟩, hself, hbelow, htable, hframes⟩ := hs.parts
  have hlength : (b.words vars).length ≤ n := by
    simp only [Stmt.words, List.length_cons, List.length_append] at hlength
    omega
  have hframes₂ : 2 ≤ c₂.frames.length := (hmarks.2.passes.trans hx.passes).frames ▸ hframes
  have hsees : r.Sees (Stmt.markWords h.attributes ++ .keyword .whileLoop ::
      .symbol .leftParen :: (x.words ++ .symbol .rightParen :: (b.words vars ++ w :: ws))) := by
    simpa [Stmt.words] using hsees
  refine marked_accepts hmarks hself.marks (endsMarks_keyword _ _) hfollows hsees
    fun L marks' r₁ hsame hfollows₁ hsees₁ => ?_
  exact restOfWhile_accepts hstatement hsame hx (hself.values x List.mem_cons_self)
    ⟨hb, hbelow b (by simp [Stmt.children]), htable, hframes₂⟩ hlength hopen hfollows₁ hsees₁

theorem marked_statement_accepts (s : Stmt) :
    AcceptsMarked sizes exact vars statement n s := by
  cases s with
  | declaration h ds => exact markedDeclaration_accepts
  | expression h x => exact markedExpression_accepts
  | forLoop h i k u b => exact markedFor_accepts hstatement
  | block h ss => exact markedBlock_accepts hstatement
  | ifThen h x t => exact markedIf_accepts hstatement
  | ifElse h x t e => exact markedIfElse_accepts hstatement
  | whileLoop h x b => exact markedWhile_accepts hstatement
  | returns h v => exact markedReturn_accepts
  | empty h => exact markedEmpty_accepts

end

theorem statementFor_accepts (rounds : List Item) :
    AcceptsStmts sizes exact vars (statementFor rounds) rounds.length := by
  induction rounds with
  | nil =>
    intro K c c' s r w ws hs _ hlength
    obtain ⟨w', ws', hwords, _⟩ := Stmt.exists_start hs.read vars
    simp [hwords] at hlength
  | cons _ rounds ih =>
    intro K c c' s r w ws hs hfollows hlength hopen hsees
    exact marked_statement_accepts ih s K c c' r w ws hs hfollows hlength hopen hsees

end

end Grammar

end LoopNest
