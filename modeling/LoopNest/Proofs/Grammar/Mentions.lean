import LoopNest.Proofs.Grammar.ReadStmt
import LoopNest.Proofs.Nest.Rules

/-!
# The variables in a tree that was read

What a tree says of variables comes down to a run of uses and declarations, some of them in scopes
of their own. Facts on names are proved of such runs.

* `Context.Run`: a run, with the variables that are used and those that are declared.
* `Stmt.ReadIn.run`: a statement that is read makes such a run.
* `Context.Run.keeps`: a name that stands for a variable, and is not declared, is used for that
  variable only.
* `Program.isRead_of_read`: every statement in a program that was read is read somewhere.
-/

namespace LoopNest

/-! ## Runs -/

namespace Context

/-- Variables are used and declared, from one context to another. -/
inductive Run : Context → List VarRef → List VarRef → Context → Prop
  | nil (c : Context) : Run c [] [] c
  | used {c c' : Context} {v : VarRef} (h : c.Resolves v c') : Run c [v] [] c'
  | declared {c c' : Context} {v : VarRef} {type : VarType} (h : c.Declares v type c') :
      Run c [] [v] c'
  | append {c c₁ c₂ : Context} {us us' ds ds' : List VarRef} (first : Run c us ds c₁)
      (rest : Run c₁ us' ds' c₂) : Run c (us ++ us') (ds ++ ds') c₂
  | scope {c c' : Context} {us ds : List VarRef} (inside : Run c.push us ds c') :
      Run c us ds c'.pop

namespace Run

variable {c c' : Context} {us ds : List VarRef} {name : String} {w : VarRef}

theorem of_refers (h : c.Refers us c') : Run c us [] c' := by
  induction h with
  | nil c => exact .nil c
  | cons first _ ih => exact (used first).append ih

theorem of_reads {xs : List Expr} (h : c.Reads xs c') : Run c (xs.flatMap Expr.refs) [] c' :=
  of_refers h.2

theorem length_frames (h : Run c us ds c') : c'.frames.length = c.frames.length := by
  induction h with
  | nil c => rfl
  | @used c c' v hv =>
    rcases resolves_cases hv with ⟨_, rfl⟩ | ⟨_, _, _, rfl⟩
    · rfl
    · refine bindOuter_induction (P := fun fs gs => gs.length = fs.length) (v.name, v) rfl
        (fun _ => rfl) (fun _ _ => rfl) (fun _ _ ih => ?_) c.frames
      simp [ih]
  | @declared c c' v type hv =>
    obtain ⟨_, _, _, rfl⟩ := declares_cases hv
    cases c.frames <;> rfl
  | append _ _ ih ih' => exact ih'.trans ih
  | scope _ ih =>
    rw [pop, List.length_tail, ih]
    rfl

theorem vars_extend (h : Run c us ds c') : c.Extends c' := by
  induction h with
  | nil c => exact .refl c
  | used hv => exact hv.extends
  | declared hv => exact hv.extends
  | append _ _ ih ih' => exact Extends.trans ih ih'
  | scope _ ih => exact ih

theorem sound (h : Run c us ds c') (hc : c.Sound) : c'.Sound := by
  induction h with
  | nil c => exact hc
  | used hv => exact hv.sound hc
  | declared hv => exact hv.sound hc
  | append _ _ ih ih' => exact ih' (ih hc)
  | @scope c c' us ds inside ih =>
    refine (ih hc.push).pop fun hnil => hc.frames_ne ?_
    have hlength := inside.length_frames
    have htail := congrArg List.length hnil
    rw [List.length_tail, hlength] at htail
    exact List.length_eq_zero_iff.mp htail

/-- The variables that are used are there behind the run. -/
theorem used_lt (h : Run c us ds c') (hc : c.Sound) : ∀ v ∈ us, v.id < c'.vars.size := by
  induction h with
  | nil c => exact fun _ hv => absurd hv List.not_mem_nil
  | used hv => simpa using hv.lt_size hc
  | declared hv => exact fun _ hv => absurd hv List.not_mem_nil
  | append first rest ih ih' =>
    intro v hv
    rcases List.mem_append.mp hv with hv | hv
    · exact Nat.lt_of_lt_of_le (ih hc v hv) rest.vars_extend.size_le
    · exact ih' (first.sound hc) v hv
  | scope _ ih => exact ih hc.push

/-- The variables that are declared are new. -/
theorem le_declared (h : Run c us ds c') : ∀ v ∈ ds, c.vars.size ≤ v.id := by
  induction h with
  | nil c => exact fun _ hv => absurd hv List.not_mem_nil
  | used hv => exact fun _ hv => absurd hv List.not_mem_nil
  | declared hv => simpa using Nat.le_of_eq hv.get?.1.symm
  | append first rest ih ih' =>
    intro v hv
    rcases List.mem_append.mp hv with hv | hv
    · exact ih v hv
    · exact Nat.le_trans first.vars_extend.size_le (ih' v hv)
  | scope _ ih => exact ih

/-- The entry of a variable that is declared says so. -/
theorem get?_declared (h : Run c us ds c') :
    ∀ v ∈ ds, ∃ x, c'.vars.get? v.id = some x ∧ x.implicit = false := by
  induction h with
  | nil c => exact fun _ hv => absurd hv List.not_mem_nil
  | used hv => exact fun _ hv => absurd hv List.not_mem_nil
  | declared hv =>
    rw [List.forall_mem_singleton]
    obtain ⟨_, hid, span, rfl⟩ := declares_cases hv
    exact ⟨_, hid ▸ VarTable.get?_add_self _ _, rfl⟩
  | append first rest ih ih' =>
    refine List.forall_mem_append.mpr ⟨fun v hv => ?_, ih'⟩
    obtain ⟨x, hx, himplicit⟩ := ih v hv
    have hlt := (Array.getElem?_eq_some_iff.mp hx).1
    exact ⟨x, (rest.vars_extend.get?_eq _ hlt).trans hx, himplicit⟩
  | scope _ ih => exact ih

/-- The variables that are declared have numbers in the order of their declarations. -/
theorem pairwise_declared (h : Run c us ds c') : ds.Pairwise fun v w => v.id < w.id := by
  induction h with
  | nil c => exact .nil
  | used _ => exact .nil
  | declared _ => exact List.pairwise_singleton _ _
  | append first rest ih ih' =>
    refine List.pairwise_append.mpr ⟨ih, ih', fun v hv w hw => ?_⟩
    obtain ⟨x, hx, _⟩ := first.get?_declared v hv
    have hlt := (Array.getElem?_eq_some_iff.mp hx).1
    exact Nat.lt_of_lt_of_le hlt (rest.le_declared w hw)
  | scope _ ih => exact ih

/-- A name that stands for a variable goes on to do so if the run does not declare it, and all
its uses are uses of that variable. -/
theorem keeps (h : Run c us ds c') (hfind : c.find? name = some w)
    (hds : ∀ v ∈ ds, v.name ≠ name) : c.Keeps name c' ∧ ∀ v ∈ us, v.name = name → v = w := by
  induction h with
  | nil c => exact ⟨.refl _ _, fun _ hv => absurd hv List.not_mem_nil⟩
  | used hv => exact Refers.keeps (.single hv) hfind
  | declared hv =>
    exact ⟨hv.keeps (hds _ List.mem_cons_self), fun _ hv => absurd hv List.not_mem_nil⟩
  | append _ _ ih ih' =>
    obtain ⟨hkeeps, hus⟩ := ih hfind fun v hv => hds v (List.mem_append_left _ hv)
    obtain ⟨hkeeps', hus'⟩ :=
      ih' (hkeeps.find?.trans hfind) fun v hv => hds v (List.mem_append_right _ hv)
    refine ⟨hkeeps.trans hkeeps', fun v hv hname => ?_⟩
    rcases List.mem_append.mp hv with hv | hv
    · exact hus v hv hname
    · exact hus' v hv hname
  | scope _ ih =>
    obtain ⟨hkeeps, hus⟩ := ih ((find?_push _ _).trans hfind) hds
    exact ⟨hkeeps.pop, hus⟩

end Run

end Context

/-! ## The variables of a statement -/

/-- The references to variables in attributes. -/
def Attribute.refsAll (marks : List Attribute) : List VarRef :=
  (marks.flatMap Attribute.args).flatMap Expr.refs

namespace Stmt

/-- The expressions that stand in the statement itself. -/
def values : Stmt → List Expr
  | declaration _ ds => ds.flatMap fun d => d.value.toList
  | expression _ x => [x]
  | ifThen _ c _ | ifElse _ c _ _ | whileLoop _ c _ => [c]
  | returns _ v => v.toList
  | forLoop _ _ _ _ _ | block _ _ | empty _ => []

/-- The variables that the statement itself uses, in its attributes or in its expressions. -/
def ownUses (s : Stmt) : List VarRef :=
  Attribute.refsAll s.attributes ++ s.values.flatMap Expr.refs

/-- The variables that are used in the statement and in those below it. -/
def uses (s : Stmt) : List VarRef := s.statements.flatMap ownUses

theorem uses_eq (s : Stmt) : s.uses = s.ownUses ++ s.children.flatMap uses := by
  rw [uses, statements_eq, List.flatMap_cons, List.flatMap_assoc]
  rfl

theorem declarators_eq (s : Stmt) :
    s.declarators = (s.declarators?).getD [] ++ s.children.flatMap declarators := by
  rw [declarators, statements_eq, List.flatMap_cons, List.flatMap_assoc]
  rfl

/-- The variables that the statement declares. -/
def declared (s : Stmt) : List VarRef := s.declarators.map Declarator.var

theorem declared_eq (s : Stmt) :
    s.declared =
      ((s.declarators?).getD []).map Declarator.var ++ s.children.flatMap declared := by
  rw [declared, declarators_eq, List.map_append, List.map_flatMap]
  rfl

/-- The variables that occur in the statement at any depth, in attributes as well. -/
def mentioned (s : Stmt) : List VarRef := s.uses ++ s.declared

theorem declared_eq_nil_of_isClause {s : Stmt} (h : s.IsClause) : s.declared = [] := by
  cases s with
  | expression _ _ | empty _ => rfl
  | _ => cases h

end Stmt

/-! ## Runs of trees -/

open Context (Run)

/-- The context `c'` is reached by a run that uses these variables, and maybe more, and declares
those. -/
def Context.RunWith (c : Context) (us ds : List VarRef) (c' : Context) : Prop :=
  ∃ us', us ⊆ us' ∧ Run c us' ds c'

namespace Context.RunWith

variable {c c₁ c' : Context} {us us' ds ds' : List VarRef}

theorem of_run (h : Run c us ds c') : c.RunWith us ds c' := ⟨us, List.Subset.refl us, h⟩

theorem append (h : c.RunWith us ds c₁) (h' : c₁.RunWith us' ds' c') :
    c.RunWith (us ++ us') (ds ++ ds') c' := by
  obtain ⟨vs, hvs, hrun⟩ := h
  obtain ⟨vs', hvs', hrun'⟩ := h'
  refine ⟨vs ++ vs', fun v hv => List.mem_append.mpr ?_, hrun.append hrun'⟩
  exact (List.mem_append.mp hv).imp (fun hv => hvs hv) fun hv => hvs' hv

theorem vars_extend (h : c.RunWith us ds c') : c.Extends c' := by
  obtain ⟨_, _, hrun⟩ := h
  exact hrun.vars_extend

theorem scope (h : c.push.RunWith us ds c') : c.RunWith us ds c'.pop := by
  obtain ⟨vs, hvs, hrun⟩ := h
  exact ⟨vs, hvs, hrun.scope⟩

theorem mono (h : c.RunWith us ds c') (hsub : us' ⊆ us) (heq : ds = ds') :
    c.RunWith us' ds' c' := by
  obtain ⟨vs, hvs, hrun⟩ := h
  exact ⟨vs, fun v hv => hvs (hsub hv), heq ▸ hrun⟩

end Context.RunWith

open Context (RunWith)

theorem Context.ReadsMarks.run {c c' : Context} {marks : List Attribute}
    (h : c.ReadsMarks marks c') : c.RunWith (Attribute.refsAll marks) [] c' :=
  .of_run (.of_reads h.2)

variable {sizes : Span → List String}

theorem Declarator.ReadIn.run {base : BaseType} {c c' : Context} {d : Declarator}
    (h : d.ReadIn sizes base c c') : c.RunWith (d.value.toList.flatMap Expr.refs) [d.var] c' := by
  obtain ⟨vs, c₁, c₂, type, hsizes, hvalue, _, _, hdeclares, _⟩ := h
  refine ⟨_, ?_, (Run.of_refers hsizes).append ((Run.of_reads hvalue).append (.declared hdeclares))⟩
  intro v hv
  simp [hv]

theorem Declarator.run_of_chain {base : BaseType} {c c' : Context} {ds : List Declarator}
    (h : c.Chain (Declarator.ReadIn sizes base) ds c') :
    c.RunWith ((ds.flatMap fun d => d.value.toList).flatMap Expr.refs) (ds.map Declarator.var)
      c' := by
  induction h with
  | nil c => exact .of_run (.nil c)
  | cons first _ ih =>
    rw [List.flatMap_cons, List.flatMap_append]
    exact first.run.append ih

theorem VarRef.run_of_chain {c c' : Context} {vs : List VarRef}
    (h : c.Chain (VarRef.ReadIn sizes) vs c') : c.RunWith [] vs c' := by
  induction h with
  | nil c => exact .of_run (.nil c)
  | cons first _ ih =>
    obtain ⟨vs, c₁, type, hsizes, _, hdeclares, _⟩ := first
    have hfirst := (Run.of_refers hsizes).append (.declared hdeclares)
    exact RunWith.append ⟨_, List.nil_subset _, hfirst⟩ ih

namespace Stmt

mutual

/-- A statement that is read makes a run over its variables. -/
theorem ReadIn.run : ∀ {s : Stmt} {c c' : Context}, s.ReadIn sizes c c' → c.RunWith s.uses s.declared c'
  | declaration h ds, c, c', hs => by
    obtain ⟨c₁, base, hmarks, _, hds⟩ := hs
    refine (hmarks.run.append (Declarator.run_of_chain hds)).mono ?_ ?_
    · simp [uses_eq, ownUses, children, attributes, head, values]
    · simp [declared_eq, declarators?, children]
  | expression h x, c, c', hs => by
    obtain ⟨c₁, hmarks, hx⟩ := hs
    refine (hmarks.run.append (.of_run (.of_reads hx))).mono ?_ ?_
    · simp [uses_eq, ownUses, children, attributes, head, values]
    · simp [declared_eq, declarators?, children]
  | forLoop h i k u b, c, c', hs => by
    obtain ⟨before, behind, c₁, c₂, c₃, c₄, c₅, c₆, ⟨hattributes, _⟩, hbefore, ⟨_, hi⟩, ⟨_, hk⟩,
      ⟨_, hu⟩, hbehind, hb, rfl⟩ := hs
    have hinside := (((hi.run.append hk.run).append hu.run).append hbehind.run).append hb.run
    refine (hbefore.run.append hinside.scope).mono ?_ ?_
    · have hrefs : Attribute.refsAll h.attributes =
          Attribute.refsAll before ++ Attribute.refsAll behind := by
        simp [Attribute.refsAll, hattributes]
      intro v hv
      simp only [uses_eq (forLoop h i k u b), ownUses, children, attributes, head, values, hrefs,
        List.flatMap_cons, List.flatMap_nil, List.mem_append, List.not_mem_nil] at hv ⊢
      tauto
    · simp [declared_eq (forLoop h i k u b), declarators?, children]
  | block h ss, c, c', hs => by
    obtain ⟨c₁, c₂, hmarks, hss, rfl⟩ := hs
    refine (hmarks.run.append (ReadAllIn.run hss).scope).mono ?_ ?_
    · simp [uses_eq (block h ss), ownUses, children, attributes, head, values]
    · simp [declared_eq (block h ss), declarators?, children]
  | ifThen h x t, c, c', hs => by
    obtain ⟨c₁, c₂, hmarks, hx, ht⟩ := hs
    refine (hmarks.run.append ((RunWith.of_run (.of_reads hx)).append ht.run)).mono ?_ ?_
    · simp [uses_eq (ifThen h x t), ownUses, children, attributes, head, values]
    · simp [declared_eq (ifThen h x t), declarators?, children]
  | ifElse h x t e, c, c', hs => by
    obtain ⟨c₁, c₂, c₃, hmarks, hx, ⟨_, ht⟩, he⟩ := hs
    refine (hmarks.run.append ((RunWith.of_run (.of_reads hx)).append
      (ht.run.append he.run))).mono ?_ ?_
    · simp [uses_eq (ifElse h x t e), ownUses, children, attributes, head, values]
    · simp [declared_eq (ifElse h x t e), declarators?, children]
  | whileLoop h x b, c, c', hs => by
    obtain ⟨c₁, c₂, hmarks, hx, hb⟩ := hs
    refine (hmarks.run.append ((RunWith.of_run (.of_reads hx)).append hb.run)).mono ?_ ?_
    · simp [uses_eq (whileLoop h x b), ownUses, children, attributes, head, values]
    · simp [declared_eq (whileLoop h x b), declarators?, children]
  | returns h v, c, c', hs => by
    obtain ⟨c₁, hmarks, hv⟩ := hs
    refine (hmarks.run.append (.of_run (.of_reads hv))).mono ?_ ?_
    · simp [uses_eq, ownUses, children, attributes, head, values]
    · simp [declared_eq, declarators?, children]
  | empty h, c, c', hs => by
    refine (Context.ReadsMarks.run hs).mono ?_ ?_
    · simp [uses_eq, ownUses, children, attributes, head, values]
    · simp [declared_eq, declarators?, children]

theorem ReadAllIn.run : ∀ {ss : List Stmt} {c c' : Context}, ReadAllIn sizes ss c c' →
    c.RunWith (ss.flatMap uses) (ss.flatMap declared) c'
  | [], c, c', hss => by
    obtain rfl : c' = c := hss
    exact .of_run (.nil _)
  | s :: ss, c, c', hss => by
    obtain ⟨c₁, hs, hrest⟩ := hss
    rw [List.flatMap_cons, List.flatMap_cons]
    exact hs.run.append (ReadAllIn.run hrest)

end

/-! ## Statements inside -/

/-- The statement is read somewhere, with sound bindings. -/
def IsRead (s : Stmt) : Prop := ∃ sizes c c', c.Sound ∧ s.ReadIn sizes c c'

theorem ReadIn.sound {s : Stmt} {c c' : Context} (h : s.ReadIn sizes c c') (hc : c.Sound) :
    c'.Sound := by
  obtain ⟨_, _, hrun⟩ := h.run
  exact hrun.sound hc

theorem isRead_of_readAllIn {ss : List Stmt} {c c' : Context} (h : ReadAllIn sizes ss c c')
    (hc : c.Sound) : ∀ s ∈ ss, s.IsRead := by
  induction ss generalizing c with
  | nil => exact fun _ hs => absurd hs List.not_mem_nil
  | cons s ss ih =>
    obtain ⟨c₁, hs, hss⟩ := h
    exact List.forall_mem_cons.mpr ⟨⟨_, c, c₁, hc, hs⟩, ih hss (hs.sound hc)⟩

theorem IsRead.children {s : Stmt} (h : s.IsRead) : ∀ t ∈ s.children, t.IsRead := by
  have hmarks {c c' : Context} {marks : List Attribute} (h : c.ReadsMarks marks c')
      (hc : c.Sound) : c'.Sound := (Run.of_reads h.2).sound hc
  have hreads {c c' : Context} {xs : List Expr} (h : c.Reads xs c') (hc : c.Sound) : c'.Sound :=
    (Run.of_reads h).sound hc
  obtain ⟨_, c, c', hc, hs⟩ := h
  cases s with
  | forLoop h i k u b =>
    obtain ⟨before, behind, c₁, c₂, c₃, c₄, c₅, c₆, _, hbefore, ⟨_, hi⟩, ⟨_, hk⟩, ⟨_, hu⟩,
      hbehind, hb, _⟩ := hs
    have hc₁ := (hmarks hbefore hc).push
    have hc₂ := hi.sound hc₁
    have hc₃ := hk.sound hc₂
    have hc₄ := hu.sound hc₃
    simp only [Stmt.children, List.forall_mem_cons]
    exact ⟨⟨_, _, _, hc₁, hi⟩, ⟨_, _, _, hc₂, hk⟩, ⟨_, _, _, hc₃, hu⟩, ⟨_, _, _, hmarks hbehind hc₄, hb⟩,
      by simp⟩
  | block h ss =>
    obtain ⟨c₁, c₂, hbefore, hss, _⟩ := hs
    exact isRead_of_readAllIn hss (hmarks hbefore hc).push
  | ifThen h x t =>
    obtain ⟨c₁, c₂, hbefore, hx, ht⟩ := hs
    exact List.forall_mem_singleton.mpr ⟨_, _, _, hreads hx (hmarks hbefore hc), ht⟩
  | ifElse h x t e =>
    obtain ⟨c₁, c₂, c₃, hbefore, hx, ⟨_, ht⟩, he⟩ := hs
    have hc₂ := hreads hx (hmarks hbefore hc)
    simp only [Stmt.children, List.forall_mem_cons]
    exact ⟨⟨_, _, _, hc₂, ht⟩, ⟨_, _, _, ht.sound hc₂, he⟩, by simp⟩
  | whileLoop h x b =>
    obtain ⟨c₁, c₂, hbefore, hx, hb⟩ := hs
    exact List.forall_mem_singleton.mpr ⟨_, _, _, hreads hx (hmarks hbefore hc), hb⟩
  | declaration _ _ | expression _ _ | returns _ _ | empty _ =>
    exact fun _ ht => absurd ht List.not_mem_nil

theorem IsRead.of_mem_statements {s : Stmt} (h : s.IsRead) : ∀ t ∈ s.statements, t.IsRead := by
  induction s using children_induction with
  | step s ih =>
    intro t ht
    rw [statements_eq] at ht
    rcases List.mem_cons.mp ht with rfl | ht
    · exact h
    · obtain ⟨u, hu, ht⟩ := List.mem_flatMap.mp ht
      exact ih u hu (h.children u hu) t ht

end Stmt

/-! ## Expressions -/

theorem Declarator.grammatical_of_chain {base : BaseType} {c c' : Context} {ds : List Declarator}
    (h : c.Chain (Declarator.ReadIn sizes base) ds c') :
    ∀ x ∈ ds.flatMap fun d => d.value.toList, x.Grammatical := by
  induction h with
  | nil => exact fun _ hx => absurd hx List.not_mem_nil
  | cons first _ ih =>
    obtain ⟨_, _, _, _, _, hvalue, _⟩ := first
    rw [List.flatMap_cons, List.forall_mem_append]
    exact ⟨hvalue.1, ih⟩

/-- The expressions of a statement that is read have the form that the grammar asks for. -/
theorem Stmt.ReadIn.grammatical {s : Stmt} {c c' : Context} (hs : s.ReadIn sizes c c') :
    ∀ x ∈ s.attributes.flatMap Attribute.args ++ s.values, x.Grammatical := by
  rw [List.forall_mem_append]
  cases s with
  | declaration h ds =>
    obtain ⟨_, _, hmarks, _, hds⟩ := hs
    exact ⟨hmarks.2.1, Declarator.grammatical_of_chain hds⟩
  | expression h x =>
    obtain ⟨_, hmarks, hx⟩ := hs
    exact ⟨hmarks.2.1, hx.1⟩
  | forLoop h i k u b =>
    obtain ⟨before, behind, _, _, _, _, _, _, ⟨hattributes, _⟩, hbefore, _, _, _, hbehind, _⟩ := hs
    refine ⟨?_, fun _ hx => absurd hx List.not_mem_nil⟩
    change ∀ x ∈ h.attributes.flatMap Attribute.args, x.Grammatical
    rw [hattributes, List.flatMap_append, List.forall_mem_append]
    exact ⟨hbefore.2.1, hbehind.2.1⟩
  | block h ss =>
    obtain ⟨_, _, hmarks, _⟩ := hs
    exact ⟨hmarks.2.1, fun _ hx => absurd hx List.not_mem_nil⟩
  | ifThen h x t =>
    obtain ⟨_, _, hmarks, hx, _⟩ := hs
    exact ⟨hmarks.2.1, hx.1⟩
  | ifElse h x t e =>
    obtain ⟨_, _, _, hmarks, hx, _⟩ := hs
    exact ⟨hmarks.2.1, hx.1⟩
  | whileLoop h x b =>
    obtain ⟨_, _, hmarks, hx, _⟩ := hs
    exact ⟨hmarks.2.1, hx.1⟩
  | returns h v =>
    obtain ⟨_, hmarks, hv⟩ := hs
    exact ⟨hmarks.2.1, hv.1⟩
  | empty h => exact ⟨hs.2.1, fun _ hx => absurd hx List.not_mem_nil⟩

/-! ## Programs -/

theorem Function.ReadIn.run {f : Function} {c c' : Context} (h : f.ReadIn sizes c c') :
    ∃ us ds, Run c us ds c' := by
  obtain ⟨c₁, c₂, c₃, hmarks, _, hparams, hbody, rfl⟩ := h
  obtain ⟨_, _, hparams⟩ := VarRef.run_of_chain hparams
  obtain ⟨_, _, hbody⟩ := Stmt.ReadAllIn.run hbody
  exact ⟨_, _, (Run.of_reads hmarks.2).append (hparams.append hbody.scope).scope⟩

theorem Function.ReadIn.vars_extend {f : Function} {c c' : Context} (h : f.ReadIn sizes c c') :
    c.Extends c' := by
  obtain ⟨_, _, hrun⟩ := h.run
  exact hrun.vars_extend

/-- Every function of a program that was read is read somewhere. -/
theorem Program.exists_readIn {source : String} {p : Program} (hp : Program.read source = .ok p)
    {f : Function} (hf : f ∈ p.functions) : ∃ sizes c c', c.Sound ∧ f.ReadIn sizes c c' := by
  have hfunctions {sizes : Span → List String} {fs : List Function} {c c' : Context}
      (h : c.Chain (Function.ReadIn sizes) fs c') (hc : c.Sound) :
      ∀ f ∈ fs, ∃ d d', d.Sound ∧ f.ReadIn sizes d d' := by
    induction h with
    | nil => exact fun _ hf => absurd hf List.not_mem_nil
    | cons first _ ih =>
      obtain ⟨_, _, hrun⟩ := first.run
      exact List.forall_mem_cons.mpr ⟨⟨_, _, hc, first⟩, ih (hrun.sound hc)⟩
  obtain ⟨c, hchain, _⟩ := readIn_of_read hp
  exact ⟨_, hfunctions hchain .initial f hf⟩

/-- Every statement of a program that was read is read somewhere. -/
theorem Program.isRead_of_read {source : String} {p : Program}
    (hp : Program.read source = .ok p) {f : Function} (hf : f ∈ p.functions) {s : Stmt}
    (hs : s ∈ f.body.allStatements) : s.IsRead := by
  obtain ⟨_, d, d', hd, c₁, c₂, c₃, hmarks, _, hparams, hbody, _⟩ := exists_readIn hp hf
  obtain ⟨_, _, hparams⟩ := VarRef.run_of_chain hparams
  have hc₂ := hparams.sound ((Run.of_reads hmarks.2).sound hd).push
  obtain ⟨t, ht, hs⟩ := Block.mem_allStatements.mp hs
  exact (Stmt.isRead_of_readAllIn hbody hc₂.push t ht).of_mem_statements s hs

end LoopNest
