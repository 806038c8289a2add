import LoopNest.Proofs.Grammar.Separate
import LoopNest.Proofs.Grammar.Sightings

/-!
# Lexical scoping

The stack of scopes that a reader keeps agrees with the scopes around a place in the tree. It binds
one thing more: a name that nothing declares is bound to an implicit variable, in the scope of the
parameters, and stays bound until the end of the function.

* `Context.Sees`: the bindings are the visible declarators and some implicit variables.
* `Context.Sights`: a piece of a function is read, and each name in it stands for what it should.
* `Context.Sights.used`, `Context.Sights.declared`, `Context.Sights.scope`: what one step does.
* `Stmt.ReadIn.sights`: so do statements.
* `Program.read_lexical`: names stand for the innermost declarators, or for implicit variables.
-/

namespace LoopNest

/-- What names stand for in a function if nothing around them declares them. -/
abbrev Implicits := String → Option VarRef

/-- The name stands for the innermost declarator, or else for an implicit variable; so does the
reference in the tree. -/
def Sighting.Resolved (m : Implicits) (o : Sighting) : Prop :=
  ∃ v, (o.visible.latest? o.name).or (m o.name) = some v ∧ ∀ w, o.var? = some w → w = v

/-- No scope around the name declares it. -/
def Sighting.Undeclared (o : Sighting) : Prop := o.visible.latest? o.name = none

theorem Sighting.Resolved.mono {m m' : Implicits} {o : Sighting} (h : o.Resolved m)
    (hle : ∀ name v, m name = some v → m' name = some v) : o.Resolved m' := by
  obtain ⟨v, hv, hvar⟩ := h
  refine ⟨v, ?_, hvar⟩
  rcases Option.or_eq_some_iff.mp hv with hfound | ⟨hnone, hfound⟩
  · rw [hfound, Option.some_or]
  · rw [hnone, Option.none_or]
    exact hle _ v hfound

/-! ## The bindings of a name -/

namespace Visible

/-- The bindings of a name in the frames, from the innermost one to the global one. -/
def column (m : Implicits) (name : String) : Visible → List (Option VarRef)
  | [] => [none]
  | [params] => [(params.find? fun v => v.name == name).or (m name), none]
  | scope :: e => (scope.find? fun v => v.name == name) :: column m name e

variable {m : Implicits} {name : String} {e : Visible}

theorem column_cons_cons (scope g : List VarRef) (e : Visible) :
    column m name (scope :: g :: e) =
      (scope.find? fun v => v.name == name) :: column m name (g :: e) :=
  rfl

theorem latest?_cons (scope : List VarRef) (e : Visible) :
    Visible.latest? (scope :: e) name =
      (scope.find? fun v => v.name == name).or (e.latest? name) := by
  rw [latest?, List.findSome?_cons]
  cases scope.find? fun v => v.name == name <;> rfl

theorem findSome?_column (he : e ≠ []) :
    (column m name e).findSome? id = (e.latest? name).or (m name) := by
  induction e with
  | nil => exact absurd rfl he
  | cons scope e ih =>
    rw [latest?_cons]
    cases e with
    | nil =>
      rw [column, List.findSome?_cons]
      cases scope.find? fun v => v.name == name <;> cases m name <;> rfl
    | cons g e =>
      rw [column_cons_cons, List.findSome?_cons, ih (List.cons_ne_nil g e), Option.or_assoc]
      cases scope.find? fun v => v.name == name <;> rfl

theorem column_tail (scope : List VarRef) : (column m name (scope :: e)).tail = column m name e := by
  cases e <;> rfl

theorem column_congr {m' : Implicits} (h : m name = m' name) (e : Visible) :
    column m name e = column m' name e := by
  induction e with
  | nil => rfl
  | cons scope e ih =>
    cases e with
    | nil => rw [column, column, h]
    | cons g e => rw [column_cons_cons, column_cons_cons, ih]

/-- A name that stands for nothing is bound nowhere; an implicit variable would be bound with the
parameters. -/
theorem column_of_none (he : e ≠ []) (hnone : (e.latest? name).or (m name) = none) :
    ∃ os, column m name e = os ++ [none, none] ∧
      ∀ (m' : Implicits) v, m' name = some v → column m' name e = os ++ [some v, none] := by
  induction e with
  | nil => exact absurd rfl he
  | cons scope e ih =>
    rw [latest?_cons, Option.or_assoc, Option.or_eq_none_iff] at hnone
    obtain ⟨hscope, hnone⟩ := hnone
    cases e with
    | nil =>
      refine ⟨[], ?_, fun m' v hv => ?_⟩
      · have hm : m name = none := hnone
        rw [column, hscope, hm]
        rfl
      · rw [column, hscope, hv]
        rfl
    | cons g e =>
      obtain ⟨os, hos, hos'⟩ := ih (List.cons_ne_nil g e) hnone
      refine ⟨none :: os, ?_, fun m' v hv => ?_⟩
      · rw [column_cons_cons, hscope, hos]
        rfl
      · rw [column_cons_cons, hscope, hos' m' v hv]
        rfl

/-- Only the innermost binding changes when the name is declared. -/
theorem column_declare (m : Implicits) (v : VarRef) (scope : List VarRef) (e : Visible) :
    ∃ o os, column m v.name (scope :: e) = o :: os ∧
      column m v.name ((v :: scope) :: e) = some v :: os := by
  have hfind : (v :: scope).find? (fun w => w.name == v.name) = some v := by simp
  cases e with
  | nil => exact ⟨_, _, rfl, by rw [column, hfind]; rfl⟩
  | cons g e => exact ⟨_, _, rfl, by rw [column_cons_cons, hfind]⟩

theorem column_declare_ne {v : VarRef} (hne : v.name ≠ name) (scope : List VarRef) (e : Visible) :
    column m name ((v :: scope) :: e) = column m name (scope :: e) := by
  have hfind : (v :: scope).find? (fun w => w.name == name) =
      scope.find? fun w => w.name == name := by simp [hne]
  cases e with
  | nil => rw [column, hfind, column]
  | cons g e => rw [column_cons_cons, hfind, column_cons_cons]

end Visible

namespace Context

/-- Every name is bound where it is visible; an implicit variable is bound with the parameters. -/
def Sees (c : Context) (m : Implicits) (e : Visible) : Prop :=
  ∀ name, c.column name = Visible.column m name e

variable {c c₁ c' : Context} {m m' : Implicits} {e e₁ e' : Visible} {v : VarRef} {type : VarType}
  {scope : List VarRef} {os os' : List Sighting}

theorem Sees.find? (h : c.Sees m e) (he : e ≠ []) (name : String) :
    c.find? name = (e.latest? name).or (m name) := by
  rw [find?_eq_column, h name, Visible.findSome?_column he]

theorem Sees.push (h : c.Sees m e) (he : e ≠ []) : c.push.Sees m ([] :: e) := by
  obtain ⟨scope, e, rfl⟩ := List.exists_cons_of_ne_nil he
  intro name
  rw [column_push, h name]
  rfl

theorem Sees.pop (h : c.Sees m (scope :: e)) : c.pop.Sees m e := by
  intro name
  rw [column_pop, h name, Visible.column_tail]

/-- An implicit variable is bound with the parameters. -/
theorem Sees.bindOuter (h : c.Sees m e) (he : e ≠ []) (hnone : c.find? v.name = none)
    (vars : VarTable) : (⟨vars, Frame.bindOuter (v.name, v) c.frames⟩ : Context).Sees
      (Function.update m v.name (some v)) e := by
  rw [h.find? he] at hnone
  obtain ⟨os, hos, hos'⟩ := Visible.column_of_none he hnone
  intro name
  by_cases hname : name = v.name
  · obtain rfl := hname
    rw [hos' _ v (Function.update_self ..)]
    exact Frame.column_bindOuter_two ((h v.name).trans hos)
  · rw [Visible.column_congr (Function.update_of_ne hname ..), ← h name]
    exact Frame.column_bindOuter_ne hname

/-- A variable is declared in the innermost scope. -/
theorem Sees.declare (h : c.Sees m (scope :: e)) (hv : c.Declares v type c') :
    c'.Sees m ((v :: scope) :: e) := by
  obtain ⟨_, _, _, rfl⟩ := declares_cases hv
  intro name
  by_cases hname : name = v.name
  · obtain rfl := hname
    obtain ⟨o, os, hos, hos'⟩ := Visible.column_declare m v scope e
    rw [hos']
    exact Frame.column_bindInner ((h v.name).trans hos)
  · rw [Visible.column_declare_ne (Ne.symm hname), ← h name]
    exact Frame.column_bindInner_ne hname

end Context

/-! ## What is read, and where it leads -/

section

variable {t t₁ u u' : VarTable} {os os' : List Sighting} {name : String} {v : VarRef}

/-- A new implicit variable, for names among the sightings that nothing declares. -/
structure Implicits.IsNew (t : VarTable) (os : List Sighting) (u : VarTable) (name : String)
    (v : VarRef) : Prop where
  named : v.name = name
  size_le : t.size ≤ v.id
  implicit : u.Implicit v
  used : ∃ o ∈ os, o.name = name ∧ o.Undeclared

/-- The sightings add to the variables, and to the implicit ones what is new among these; all of them
are resolved. -/
structure Implicits.Grows (m : Implicits) (t : VarTable) (os : List Sighting) (m' : Implicits)
    (u : VarTable) : Prop where
  vars_extend : t.Extends u
  keeps : ∀ name v, m name = some v → m' name = some v
  new : ∀ name v, m' name = some v → m name = some v ∨ IsNew t os u name v
  all : ∀ id x, u.get? id = some x → x.implicit = true → t.size ≤ id →
    ∃ v, m' x.name = some v ∧ v.id = id
  resolved : ∀ o ∈ os, o.Resolved m'

/-- Nothing is new. -/
theorem Implicits.Grows.refl (m : Implicits) (t : VarTable) (hos : ∀ o ∈ os, o.Resolved m) :
    m.Grows t os m t := by
  refine ⟨.refl t, fun _ _ h => h, fun _ _ h => .inl h, fun id x hx _ hle => ?_, hos⟩
  have hlt := (Array.getElem?_eq_some_iff.mp hx).1
  exact absurd hle (Nat.not_le_of_lt hlt)

theorem Implicits.IsNew.mono (h : IsNew t₁ os u name v) (hsize : t.size ≤ t₁.size)
    (hos : os ⊆ os') (hext : u.Extends u') : IsNew t os' u' name v :=
  ⟨h.named, Nat.le_trans hsize h.size_le, h.implicit.mono hext,
    h.used.imp fun _ ho => ⟨hos ho.1, ho.2⟩⟩

end

namespace Context

/-- The sightings are read in a function where `e` is visible, and `e'` is visible behind them. -/
def Sights (c : Context) (e : Visible) (os : List Sighting) (c' : Context) (e' : Visible) : Prop :=
  ∀ m, c.Sees m e → ∃ m', c'.Sees m' e' ∧ Implicits.Grows m c.vars os m' c'.vars

namespace Sights

variable {c c₁ c' : Context} {e e₁ e' : Visible} {v : VarRef} {type : VarType}
  {os os' : List Sighting}

theorem nil (c : Context) (e : Visible) : c.Sights e [] c e :=
  fun m hm => ⟨m, hm, .refl m c.vars (by simp)⟩

theorem append (h : c.Sights e os c₁ e₁) (h' : c₁.Sights e₁ os' c' e') :
    c.Sights e (os ++ os') c' e' := by
  intro m hm
  obtain ⟨m₁, hm₁, hfirst⟩ := h m hm
  obtain ⟨m', hm', hrest⟩ := h' m₁ hm₁
  refine ⟨m', hm', hfirst.vars_extend.trans hrest.vars_extend,
    fun name v hv => hrest.keeps name v (hfirst.keeps name v hv), fun name v hv => ?_,
    fun id x hx himplicit hle => ?_, ?_⟩
  · rcases hrest.new name v hv with hv | hnew
    · exact (hfirst.new name v hv).imp_right fun hnew =>
        hnew.mono (Nat.le_refl _) (List.subset_append_left _ _) hrest.vars_extend
    · exact .inr (hnew.mono hfirst.vars_extend.size_le (List.subset_append_right _ _) (.refl _))
  · rcases Nat.lt_or_ge id c₁.vars.size with hlt | hge
    · rw [hrest.vars_extend.get?_eq id hlt] at hx
      obtain ⟨v, hv, hid⟩ := hfirst.all id x hx himplicit hle
      exact ⟨v, hrest.keeps _ v hv, hid⟩
    · exact hrest.all id x hx himplicit hge
  · rw [List.forall_mem_append]
    exact ⟨fun o ho => (hfirst.resolved o ho).mono hrest.keeps, hrest.resolved⟩

/-- A name stands for the innermost declarator. If there is none, then it stands for the implicit
variable of the function, which may be a new one. -/
theorem used {o : Sighting} (h : c.Resolves v c') (he : e ≠ []) (hvisible : o.visible = e)
    (hname : o.name = v.name) (hvar : ∀ w, o.var? = some w → w = v) : c.Sights e [o] c' e := by
  intro m hm
  rcases resolves_cases h with ⟨hfind, rfl⟩ | ⟨hnone, hid, span, rfl⟩
  · refine ⟨m, hm, .refl m _ ?_⟩
    rw [List.forall_mem_singleton, Sighting.Resolved, hvisible, hname, ← hm.find? he]
    exact ⟨v, hfind, hvar⟩
  · have hvisible' := hnone
    rw [hm.find? he, Option.or_eq_none_iff] at hvisible'
    obtain ⟨hlatest, hmissing⟩ := hvisible'
    refine ⟨_, hm.bindOuter he hnone _, h.extends, fun name w hw => ?_, fun name w hw => ?_,
      fun id x hx _ hle => ?_, ?_⟩
    · have hne : name ≠ v.name := by
        rintro rfl
        rw [hmissing] at hw
        cases hw
      rw [Function.update_of_ne hne, hw]
    · by_cases hne : name = v.name
      · obtain rfl := hne
        rw [Function.update_self] at hw
        obtain rfl := Option.some.inj hw
        obtain ⟨_, himplicit⟩ := implicit_of_resolves h hnone
        refine .inr ⟨rfl, Nat.le_of_eq hid.symm, himplicit, o, List.mem_cons_self, hname, ?_⟩
        rw [Sighting.Undeclared, hvisible, hname, hlatest]
      · rw [Function.update_of_ne hne] at hw
        exact .inl hw
    · obtain ⟨rfl, rfl⟩ := VarTable.eq_of_get?_add hx hle
      exact ⟨v, Function.update_self .., hid⟩
    · rw [List.forall_mem_singleton, Sighting.Resolved, hvisible, hname, hlatest,
        Function.update_self]
      exact ⟨v, rfl, hvar⟩

theorem declared (h : c.Declares v type c') (he : e ≠ []) : c.Sights e [] c' (e.declare v) := by
  obtain ⟨scope, e, rfl⟩ := List.exists_cons_of_ne_nil he
  refine fun m hm => ⟨m, hm.declare h, h.extends, fun _ _ h => h, fun _ _ h => .inl h,
    fun id x hx himplicit hle => ?_, by simp⟩
  obtain ⟨_, _, span, rfl⟩ := declares_cases h
  obtain ⟨rfl, rfl⟩ := VarTable.eq_of_get?_add hx hle
  cases himplicit

/-- What a scope declares is forgotten behind it. -/
theorem scope {inner : List VarRef} (h : c.push.Sights ([] :: e) os c' (inner :: e))
    (he : e ≠ []) : c.Sights e os c'.pop e := by
  intro m hm
  obtain ⟨m', hm', hgrows⟩ := h m (hm.push he)
  exact ⟨m', hm'.pop, hgrows.vars_extend, hgrows.keeps, hgrows.new, hgrows.all, hgrows.resolved⟩

/-- References stand at one place, each of them in the tree or not. -/
theorem of_refers {vs : List VarRef} {g : VarRef → Sighting} (h : c.Refers vs c') (he : e ≠ [])
    (hg : ∀ v, (g v).visible = e ∧ (g v).name = v.name ∧ ∀ w, (g v).var? = some w → w = v) :
    c.Sights e (vs.map g) c' e := by
  induction h with
  | nil c => exact nil c e
  | @cons c c₁ c' v vs first rest ih =>
    obtain ⟨hvisible, hname, hvar⟩ := hg v
    exact (used first he hvisible hname hvar).append ih

theorem refs {vs : List VarRef} (h : c.Refers vs c') (he : e ≠ []) :
    c.Sights e (Visible.refs e vs) c' e :=
  of_refers h he fun _ => ⟨rfl, rfl, fun _ hw => (Option.some.inj hw).symm⟩

theorem names {vs : List VarRef} (h : c.Refers vs c') (he : e ≠ []) :
    c.Sights e (Visible.names e (vs.map VarRef.name)) c' e := by
  rw [Visible.names, List.map_map]
  exact of_refers h he fun _ => ⟨rfl, rfl, fun _ hw => by cases hw⟩

theorem reads {x : Expr} (h : c.Reads [x] c') (he : e ≠ []) :
    c.Sights e (Visible.refs e x.refs) c' e :=
  refs (by simpa using h.2) he

theorem marks {as : List Attribute} (h : c.ReadsMarks as c') (he : e ≠ []) :
    c.Sights e (e.marks as) c' e :=
  refs h.2.2 he

end Sights

end Context

namespace Visible

theorem declareAll_cons (inner : List VarRef) (e : Visible) (vs : List VarRef) :
    Visible.declareAll (inner :: e) vs = (vs.reverse ++ inner) :: e := by
  induction vs generalizing inner with
  | nil => rfl
  | cons v vs ih =>
    rw [declareAll, List.foldl_cons, declare, ← declareAll, ih, List.reverse_cons,
      List.append_assoc]
    rfl

theorem declareAll_append (e : Visible) (vs ws : List VarRef) :
    e.declareAll (vs ++ ws) = (e.declareAll vs).declareAll ws :=
  List.foldl_append

theorem declarators_cons (sizes : VarRef → List String) (e : Visible) (d : VarRef × Option Expr)
    (ds : List (VarRef × Option Expr)) :
    e.declarators sizes (d :: ds) =
      e.declarators sizes [d] ++ (e.declare d.1).declarators sizes ds := by
  simp [declarators]

theorem declareAll_ne {e : Visible} (he : e ≠ []) (vs : List VarRef) : e.declareAll vs ≠ [] := by
  obtain ⟨inner, e, rfl⟩ := List.exists_cons_of_ne_nil he
  rw [declareAll_cons]
  exact List.cons_ne_nil _ _

end Visible

/-! ## Declarators and statements -/

/-- The names in the sizes of the variable, by the place of its entry. -/
def VarTable.sizeNames (vars : VarTable) (sizes : Span → List String) (v : VarRef) : List String :=
  ((vars.get? v.id).map fun x => sizes x.span).getD []

section

variable {sizes : Span → List String} {vars : VarTable} {c c₁ c' : Context} {e : Visible}

theorem Context.Sized.names_eq {v : VarRef} {vs : List VarRef} (h : c.Sized sizes v vs)
    (hvars : c.vars.Extends vars) : vs.map VarRef.name = vars.sizeNames sizes v := by
  obtain ⟨x, hx, hnames⟩ := h
  have hlt : v.id < c.vars.size := (Array.getElem?_eq_some_iff.mp hx).1
  rw [VarTable.sizeNames, hvars.get?_eq _ hlt, hx, hnames]
  rfl

/-- A variable is visible behind its sizes and its initial value. -/
theorem Context.Sights.declarator {v : VarRef} {vs : List VarRef} {value : Option Expr}
    {type : VarType} {c₂ : Context} (hsizes : c.Refers vs c₁) (hvalue : c₁.Reads value.toList c₂)
    (hdeclares : c₂.Declares v type c') (hsized : c'.Sized sizes v vs)
    (hvars : c'.vars.Extends vars) (he : e ≠ []) :
    c.Sights e (e.declarators (vars.sizeNames sizes) [(v, value)]) c' (e.declare v) := by
  rw [Visible.declarators, Visible.declarators, ← hsized.names_eq hvars]
  exact (names hsizes he).append ((refs hvalue.2 he).append (declared hdeclares he))

theorem Declarator.ReadIn.sights {base : BaseType} {d : Declarator} (h : d.ReadIn sizes base c c')
    (hvars : c'.vars.Extends vars) (he : e ≠ []) :
    c.Sights e (e.declarators (vars.sizeNames sizes) [(d.var, d.value)]) c' (e.declare d.var) := by
  obtain ⟨_, _, _, _, hsizes, hvalue, _, _, hdeclares, hsized⟩ := h
  exact .declarator hsizes hvalue hdeclares hsized hvars he

theorem VarRef.ReadIn.sights {v : VarRef} (h : v.ReadIn sizes c c')
    (hvars : c'.vars.Extends vars) (he : e ≠ []) :
    c.Sights e (e.declarators (vars.sizeNames sizes) [(v, none)]) c' (e.declare v) := by
  obtain ⟨_, _, _, hsizes, _, hdeclares, hsized⟩ := h
  exact .declarator hsizes (.nil _) hdeclares hsized hvars he

/-- One declarator after the other. -/
theorem Context.Sights.of_chain {α : Type} {S : Context → α → Context → Prop} {as : List α}
    {g : α → VarRef × Option Expr} (hext : ∀ {c a c'}, S c a c' → c.Extends c')
    (hS : ∀ {c a c'} {e : Visible}, S c a c' → c'.vars.Extends vars → e ≠ [] →
      c.Sights e (e.declarators (vars.sizeNames sizes) [g a]) c' (e.declare (g a).1))
    (h : c.Chain S as c') (hvars : c'.vars.Extends vars) (he : e ≠ []) :
    c.Sights e (e.declarators (vars.sizeNames sizes) (as.map g)) c'
      (e.declareAll (as.map fun a => (g a).1)) := by
  induction h generalizing e with
  | nil c => exact .nil c e
  | @cons c c₁ c' a as first rest ih =>
    have hfirst := hS first (VarTable.Extends.trans (rest.extends hext) hvars) he
    rw [List.map_cons, Visible.declarators_cons]
    exact hfirst.append (ih hvars (Visible.declareAll_ne he [_]))

theorem Stmt.IsClause.declaresHere {s : Stmt} (h : s.IsClause) : s.declaresHere = [] := by
  cases s with
  | expression _ _ | empty _ => rfl
  | _ => cases h

/-- The attributes of a `for` statement, by their places. -/
theorem StmtHead.filter_hasInside {h : StmtHead} {before behind : List Attribute}
    (hattributes : h.attributes = before ++ behind) (hbefore : ∀ a ∈ before, ¬ h.HasInside a)
    (hbehind : ∀ a ∈ behind, h.HasInside a) :
    h.attributes.filter (fun a => ¬ h.HasInside a) = before ∧
      h.attributes.filter (fun a => h.HasInside a) = behind := by
  rw [hattributes, List.filter_append, List.filter_append]
  constructor
  · rw [List.filter_eq_self.mpr fun a ha => decide_eq_true (hbefore a ha),
      List.filter_eq_nil_iff.mpr fun a ha => by simpa using hbehind a ha, List.append_nil]
  · rw [List.filter_eq_nil_iff.mpr fun a ha => by simpa using hbefore a ha,
      List.filter_eq_self.mpr fun a ha => decide_eq_true (hbehind a ha), List.nil_append]

namespace Stmt

mutual

/-- Every name in a statement stands for what it should. -/
theorem ReadIn.sights : ∀ {s : Stmt} {c c' : Context} {e : Visible}, s.ReadIn sizes c c' →
    c'.vars.Extends vars → e ≠ [] →
    c.Sights e (s.sightings (vars.sizeNames sizes) e) c' (e.declareAll s.declaresHere)
  | declaration h ds, c, c', e, hs, hvars, he => by
    obtain ⟨c₁, base, hmarks, _, hds⟩ := hs
    refine (Context.Sights.marks hmarks he).append ?_
    exact .of_chain (fun h => h.run.vars_extend) Declarator.ReadIn.sights hds hvars he
  | expression h x, c, c', e, hs, hvars, he => by
    obtain ⟨c₁, hmarks, hx⟩ := hs
    exact (Context.Sights.marks hmarks he).append (.reads hx he)
  | forLoop h i k u b, c, c', e, hs, hvars, he => by
    obtain ⟨before, behind, c₁, c₂, c₃, c₄, c₅, c₆, ⟨hattributes, hbefore, hbehind⟩, hmarks,
      ⟨_, hi⟩, ⟨hcheck, hk⟩, ⟨hupdate, hu⟩, hmarks', hb, rfl⟩ := hs
    have hvars₅ : c₅.vars.Extends vars := VarTable.Extends.trans hb.run.vars_extend hvars
    have hvars₄ := VarTable.Extends.trans hmarks'.run.vars_extend hvars₅
    have hvars₃ := VarTable.Extends.trans hu.run.vars_extend hvars₄
    have hvars₂ := VarTable.Extends.trans hk.run.vars_extend hvars₃
    have hheader : Visible.declareAll ([] :: e) i.declaresHere ≠ [] :=
      Visible.declareAll_ne (List.cons_ne_nil _ _) _
    have hi := hi.sights hvars₂ (List.cons_ne_nil [] e)
    have hk := hk.sights hvars₃ hheader
    have hu := hu.sights hvars₄ hheader
    rw [hcheck.declaresHere] at hk
    rw [hupdate.declaresHere] at hu
    have hinside := hi.append (hk.append (hu.append ((Context.Sights.marks hmarks' hheader).append
      (hb.sights hvars hheader))))
    rw [Visible.declareAll_cons, Visible.declareAll_cons] at hinside
    obtain ⟨hfilter, hfilter'⟩ := StmtHead.filter_hasInside hattributes hbefore hbehind
    rw [sightings, hfilter, hfilter', Visible.declareAll_cons]
    exact (Context.Sights.marks hmarks he).append (hinside.scope he)
  | block h ss, c, c', e, hs, hvars, he => by
    obtain ⟨c₁, c₂, hmarks, hss, rfl⟩ := hs
    have hinside := ReadAllIn.sights hss hvars (List.cons_ne_nil [] e)
    rw [Visible.declareAll_cons] at hinside
    exact (Context.Sights.marks hmarks he).append (hinside.scope he)
  | ifThen h x t, c, c', e, hs, hvars, he => by
    obtain ⟨c₁, c₂, hmarks, hx, ht⟩ := hs
    have hx := Context.Sights.reads hx he
    exact (Context.Sights.marks hmarks he).append (hx.append (ht.sights hvars he))
  | ifElse h x t f, c, c', e, hs, hvars, he => by
    obtain ⟨c₁, c₂, c₃, hmarks, hx, ⟨_, ht⟩, hf⟩ := hs
    have hvars₃ := VarTable.Extends.trans hf.run.vars_extend hvars
    have ht := ht.sights hvars₃ he
    have hf := hf.sights hvars (Visible.declareAll_ne he t.declaresHere)
    rw [← Visible.declareAll_append] at hf
    exact (Context.Sights.marks hmarks he).append ((Context.Sights.reads hx he).append (ht.append hf))
  | whileLoop h x b, c, c', e, hs, hvars, he => by
    obtain ⟨c₁, c₂, hmarks, hx, hb⟩ := hs
    have hx := Context.Sights.reads hx he
    exact (Context.Sights.marks hmarks he).append (hx.append (hb.sights hvars he))
  | returns h v, c, c', e, hs, _, he => by
    obtain ⟨c₁, hmarks, hv⟩ := hs
    exact (Context.Sights.marks hmarks he).append (.refs hv.2 he)
  | empty h, c, c', e, hs, _, he => Context.Sights.marks hs he

theorem ReadAllIn.sights : ∀ {ss : List Stmt} {c c' : Context} {e : Visible},
    ReadAllIn sizes ss c c' → c'.vars.Extends vars → e ≠ [] →
    c.Sights e (sightingsAll (vars.sizeNames sizes) ss e) c'
      (e.declareAll (ss.flatMap declaresHere))
  | [], c, c', e, hss, _, _ => by
    obtain rfl : c' = c := hss
    exact .nil _ _
  | s :: ss, c, c', e, hss, hvars, he => by
    obtain ⟨c₁, hs, hrest⟩ := hss
    have hvars₁ := VarTable.Extends.trans (ReadAllIn.run hrest).vars_extend hvars
    rw [List.flatMap_cons, Visible.declareAll_append]
    exact (hs.sights hvars₁ he).append (ReadAllIn.sights hrest hvars (Visible.declareAll_ne he _))

end

end Stmt

end

/-! ## Functions -/

theorem VarTable.Implicit.name_eq {t : VarTable} {v w : VarRef} (h : t.Implicit v)
    (h' : t.Implicit w) (hid : v.id = w.id) : v.name = w.name := by
  have hname := h.name?
  rw [hid, h'.name?] at hname
  exact (Option.some.inj hname).symm

/-- No implicit variables. -/
def Implicits.empty : Implicits := fun _ => none

section

variable {sizes : Span → List String} {vars : VarTable} {c c' : Context} {f : Function}
  {fs : List Function}

/-- A function without variables in the attributes in front of it leaves no bindings behind. -/
theorem Function.ReadIn.sights (h : f.ReadIn sizes c c')
    (hmarks : Attribute.refsAll f.attributes = []) (hc : c.Sees .empty [])
    (hvars : c'.vars.Extends vars) :
    c'.Sees .empty [] ∧ ∃ m,
      Implicits.Grows .empty c.vars (f.sightings (vars.sizeNames sizes)) m c'.vars := by
  obtain ⟨c₁, c₂, c₃, hattributes, _, hparams, hbody, rfl⟩ := h
  have hrefers : c.Refers (Attribute.refsAll f.attributes) c₁ := hattributes.2.2
  rw [hmarks] at hrefers
  cases hrefers
  have hpush : c.push.Sees .empty [[]] := by
    intro name
    rw [Context.column_push, hc name]
    rfl
  have hvars₂ := VarTable.Extends.trans (Stmt.ReadAllIn.run hbody).vars_extend hvars
  have hparams := Context.Sights.of_chain (g := fun v => (v, none))
    (fun h => (VarRef.run_of_chain (.single h)).vars_extend) VarRef.ReadIn.sights hparams hvars₂
    (List.cons_ne_nil [] [])
  have hbody := Stmt.ReadAllIn.sights (e := [] :: Visible.declareAll [[]] f.params) hbody hvars
    (List.cons_ne_nil _ _)
  rw [List.map_id'] at hparams
  rw [Visible.declareAll_cons [] (Visible.declareAll _ _)] at hbody
  have hscope := hbody.scope (Visible.declareAll_ne (List.cons_ne_nil [] []) f.params)
  obtain ⟨m, hm, hgrows⟩ := hparams.append hscope _ hpush
  rw [Visible.declareAll_cons] at hm
  exact ⟨hm.pop, m, hgrows⟩

/-- The names in the functions have lexical scopes; the function at place `i` has the implicit
variables `implicit i`, and these are all that `u` has and `t` has not. -/
structure Function.Lexical (sizes : VarRef → List String) (t : VarTable) (fs : List Function)
    (u : VarTable) (implicit : Nat → Implicits) : Prop where
  /-- A name stands for the innermost visible declarator, and if there is none, for the implicit
  variable of that name. -/
  resolved : ∀ (i : Nat) (f : Function), fs[i]? = some f →
    ∀ o ∈ f.sightings sizes, o.Resolved (implicit i)
  /-- An implicit variable is an `int` of its name, and that name is used without a declarator. -/
  undeclared : ∀ i name v, implicit i name = some v →
    ∃ f, fs[i]? = some f ∧ Implicits.IsNew t (f.sightings sizes) u name v
  /-- There are no other implicit variables. -/
  all : ∀ id x, u.get? id = some x → x.implicit = true → t.size ≤ id →
    ∃ i v, implicit i x.name = some v ∧ v.id = id
  /-- Each function has its own ones, one for each name. -/
  apart : ∀ i j name name' v w, implicit i name = some v → implicit j name' = some w →
    v.id = w.id → i = j ∧ name = name'

theorem Function.lexical_of_chain (h : c.Chain (Function.ReadIn sizes) fs c')
    (hmarks : ∀ f ∈ fs, Attribute.refsAll f.attributes = []) (hc : c.Sees .empty [])
    (hvars : c'.vars.Extends vars) :
    ∃ implicit, Function.Lexical (vars.sizeNames sizes) c.vars fs c'.vars implicit := by
  induction h with
  | nil c =>
    refine ⟨fun _ => .empty, by simp, by simp [Implicits.empty], fun id x hx _ hle => ?_,
      by simp [Implicits.empty]⟩
    have hlt := (Array.getElem?_eq_some_iff.mp hx).1
    exact absurd hle (Nat.not_le_of_lt hlt)
  | @cons c c₁ c' f fs first rest ih =>
    obtain ⟨hmark, hmarks⟩ := List.forall_mem_cons.mp hmarks
    have hext := rest.extends Function.ReadIn.vars_extend
    obtain ⟨hc₁, m, hm⟩ := first.sights hmark hc (VarTable.Extends.trans hext hvars)
    obtain ⟨implicit, hrest⟩ := ih hmarks hc₁ hvars
    have hfirst : ∀ name v, m name = some v →
        Implicits.IsNew c.vars (f.sightings (vars.sizeNames sizes)) c₁.vars name v :=
      fun name v hv => (hm.new name v hv).resolve_left (by simp [Implicits.empty])
    -- the variables of the first function come before those of the others
    have hlt {i : Nat} {name name' : String} {v w : VarRef} (hv : m name = some v)
        (hw : implicit i name' = some w) : v.id < w.id := by
      obtain ⟨_, _, hw⟩ := hrest.undeclared i name' w hw
      have hbound := VarTable.lt_size_of_name? (hfirst name v hv).implicit.name?
      exact Nat.lt_of_lt_of_le hbound hw.size_le
    refine ⟨fun i => i.casesOn m implicit, fun i g hg => ?_, fun i name v hv => ?_,
      fun id x hx himplicit hle => ?_, fun i j name name' v w hv hw hid => ?_⟩
    · cases i with
      | zero =>
        obtain rfl : f = g := Option.some.inj hg
        exact hm.resolved
      | succ i => exact hrest.resolved i g hg
    · cases i with
      | zero =>
        exact ⟨f, rfl, (hfirst name v hv).mono (Nat.le_refl _) (List.Subset.refl _) hext⟩
      | succ i =>
        obtain ⟨g, hg, hv⟩ := hrest.undeclared i name v hv
        exact ⟨g, hg, hv.mono first.vars_extend.size_le (List.Subset.refl _) (.refl _)⟩
    · rcases Nat.lt_or_ge id c₁.vars.size with hlt | hge
      · rw [hext.get?_eq id hlt] at hx
        exact ⟨0, hm.all id x hx himplicit hle⟩
      · obtain ⟨i, hi⟩ := hrest.all id x hx himplicit hge
        exact ⟨i + 1, hi⟩
    · cases i with
      | zero =>
        cases j with
        | zero =>
          have hv := hfirst name v hv
          have hw := hfirst name' w hw
          exact ⟨rfl, hv.named.symm.trans ((hv.implicit.name_eq hw.implicit hid).trans hw.named)⟩
        | succ j => exact absurd hid (Nat.ne_of_lt (hlt hv hw))
      | succ i =>
        cases j with
        | zero => exact absurd hid.symm (Nat.ne_of_lt (hlt hw hv))
        | succ j => exact (hrest.apart i j name name' v w hv hw hid).imp_left (congrArg Nat.succ)

end

/-! ## Programs -/

/-- The names that stand in the sizes of a variable of the program. -/
def Program.sizeNames (source : String) (p : Program) : VarRef → List String :=
  p.vars.sizeNames (Grammar.sizeNames (scan source))

/-- The names in the program have lexical scopes, and all its implicit variables are those of its
functions. -/
structure Program.Lexical (sizes : VarRef → List String) (p : Program)
    (implicit : Nat → Implicits) : Prop
    extends Function.Lexical sizes {} p.functions p.vars implicit where
  /-- The tree uses no variable elsewhere. -/
  complete : ∀ f ∈ p.functions,
    (Sighting.vars (f.sightings sizes)).Perm (f.body.statements.flatMap Stmt.uses)
  /-- No implicit variable is a declared one. -/
  apart_declared : ∀ i name v, implicit i name = some v →
    ∀ f ∈ p.functions, ∀ d ∈ f.declared, d.id ≠ v.id
  /-- Every declarator declares a variable of its own. -/
  declared_apart : (p.functions.flatMap Function.declared).Pairwise fun d d' => d.id ≠ d'.id

/-- **Lexical scoping.** Every name in a function stands for the latest visible declarator of the
innermost scope around it that has one. If no scope has one, it stands for an implicit variable, one
for each function and name, that is not declared anywhere. -/
theorem Program.read_lexical {source : String} {p : Program} (hp : Program.read source = .ok p)
    (hmarks : ∀ f ∈ p.functions, Attribute.refsAll f.attributes = []) :
    ∃ implicit, p.Lexical (p.sizeNames source) implicit := by
  obtain ⟨c, hchain, hvars⟩ := readIn_of_read hp
  have hc : Context.initial.Sees .empty [] := fun _ => rfl
  have hext : c.vars.Extends p.vars := hvars ▸ .refl _
  obtain ⟨implicit, hlexical⟩ := Function.lexical_of_chain hchain hmarks hc hext
  obtain ⟨us, hrun⟩ := Function.run_of_chain hchain
  rw [hvars] at hlexical
  refine ⟨implicit, hlexical, fun f _ => f.sightings_perm, fun i name v hv f hf d hd hid => ?_,
    hrun.pairwise_declared.imp fun h => Nat.ne_of_lt h⟩
  obtain ⟨_, _, hv⟩ := hlexical.undeclared i name v hv
  obtain ⟨span, himplicit⟩ := hv.implicit
  obtain ⟨x, hx, hdeclared⟩ := hrun.get?_declared d (List.mem_flatMap.mpr ⟨f, hf, hd⟩)
  rw [hvars, hid, himplicit] at hx
  obtain rfl := Option.some.inj hx
  cases hdeclared

/-- One name has an implicit variable in each function, and it is declared in an inner scope. -/
theorem Program.read_lexical_shadowed :
    ∃ p, Program.read "void f(int a[n]) { x; int x = x; { int x; } } void g() { x; }" = .ok p ∧
      (∀ f ∈ p.functions, Attribute.refsAll f.attributes = []) ∧ ∃ implicit,
        p.Lexical (p.sizeNames "void f(int a[n]) { x; int x = x; { int x; } } void g() { x; }")
          implicit ∧
        ∃ u v w, implicit 0 "n" = some u ∧ implicit 0 "x" = some v ∧ implicit 1 "x" = some w := by
  refine (exists_of_read (P := fun p =>
    (p.functions.all fun f => (Attribute.refsAll f.attributes).isEmpty) &&
      [(0, "n"), (0, "x"), (1, "x")].all fun (i, name) => p.functions[i]?.any fun f =>
        (f.sightings (p.sizeNames
          "void f(int a[n]) { x; int x = x; { int x; } } void g() { x; }")).any fun o =>
            o.name == name && (o.visible.latest? o.name).isNone) ?_).imp fun p ⟨hp, h⟩ => ⟨hp, ?_⟩
  · decide +kernel
  · rw [Bool.and_eq_true, List.all_eq_true, List.all_eq_true] at h
    have hmarks : ∀ f ∈ p.functions, Attribute.refsAll f.attributes = [] :=
      fun f hf => List.isEmpty_iff.mp (h.1 f hf)
    obtain ⟨implicit, hlexical⟩ := read_lexical hp hmarks
    have hsome (i : Nat) (name : String) (hi : (i, name) ∈ [(0, "n"), (0, "x"), (1, "x")]) :
        ∃ v, implicit i name = some v := by
      obtain ⟨f, hf, hany⟩ := Option.any_eq_true _ _ |>.mp (h.2 _ hi)
      obtain ⟨o, ho, hname⟩ := List.any_eq_true.mp hany
      simp only [Bool.and_eq_true, beq_iff_eq, Option.isNone_iff_eq_none] at hname
      obtain ⟨v, hv, _⟩ := hlexical.resolved i f hf o ho
      rw [hname.2, Option.none_or, hname.1] at hv
      exact ⟨v, hv⟩
    obtain ⟨u, hu⟩ := hsome 0 "n" (by simp)
    obtain ⟨v, hv⟩ := hsome 0 "x" (by simp)
    obtain ⟨w, hw⟩ := hsome 1 "x" (by simp)
    exact ⟨hmarks, implicit, hlexical, u, v, w, hu, hv, hw⟩

end LoopNest
