import LoopNest.Proofs.Stmt.Relabel

/-!
# Names and the scopes around them

What declarations are visible at a place in a function follows from the tree alone: the scopes are
the list of parameters, each block, and each `for` statement. The sizes of arrays are not in the
tree; a function `sizes` tells which names stand in those of a variable.

* `Visible.latest?`: the latest declarator of a name in the innermost scope that has one.
* `Sighting`: a name that is used, with the scopes around it.
* `Stmt.sightings`, `Function.sightings`: all of them, in the order of the source.
* `Function.sightings_perm`: no use of a variable in the tree is left out.
-/

namespace LoopNest

/-! ## Scopes -/

/-- The variables that the scopes around a place declare in front of it. The innermost scope comes
first, and in each scope the latest declarator. -/
abbrev Visible := List (List VarRef)

namespace Visible

/-- The latest declarator of the name, in the innermost scope that has one. -/
def latest? (e : Visible) (name : String) : Option VarRef :=
  e.findSome? fun scope => scope.find? fun v => v.name == name

/-- A variable is declared in the innermost scope. -/
def declare : Visible → VarRef → Visible
  | [], _ => []
  | scope :: e, v => (v :: scope) :: e

def declareAll (e : Visible) (vs : List VarRef) : Visible := vs.foldl declare e

end Visible

/-- A name that is used as that of a variable, with what is visible there. The reference in the tree
is missing for a name in the size of an array. -/
structure Sighting where
  visible : Visible
  name : String
  var? : Option VarRef

namespace Visible

variable (e : Visible)

/-- References at one place. -/
def refs (vs : List VarRef) : List Sighting := vs.map fun v => ⟨e, v.name, some v⟩

/-- Names in sizes of arrays at one place. -/
def names (ns : List String) : List Sighting := ns.map fun n => ⟨e, n, none⟩

def marks (as : List Attribute) : List Sighting := Visible.refs e (Attribute.refsAll as)

end Visible

instance (h : StmtHead) (a : Attribute) : Decidable (h.HasInside a) :=
  inferInstanceAs (Decidable (h.span.start.offset < a.span.start.offset))

/-- The variables that the statement declares in the scope where it stands. -/
def Stmt.declaresHere : Stmt → List VarRef
  | declaration _ ds => ds.map Declarator.var
  | ifThen _ _ t => t.declaresHere
  | ifElse _ _ t e => t.declaresHere ++ e.declaresHere
  | whileLoop _ _ b => b.declaresHere
  | forLoop _ _ _ _ _ | block _ _ | expression _ _ | returns _ _ | empty _ => []

/-! ## Sightings -/

section

variable (sizes : VarRef → List String)

/-- Variables are declared, some with an initial value. Each one is visible behind its sizes and its
value. -/
def Visible.declarators : Visible → List (VarRef × Option Expr) → List Sighting
  | _, [] => []
  | e, (v, value) :: ds =>
    Visible.names e (sizes v) ++ (Visible.refs e (value.toList.flatMap Expr.refs) ++
      declarators (e.declare v) ds)

namespace Stmt

mutual

/-- The names that are used in the statement. A `for` statement opens a scope behind the attributes in
front of it, and a block does so behind its attributes. -/
def sightings : Stmt → Visible → List Sighting
  | declaration h ds, e =>
    e.marks h.attributes ++ e.declarators sizes (ds.map fun d => (d.var, d.value))
  | expression h x, e => e.marks h.attributes ++ Visible.refs e x.refs
  | forLoop h i k u b, e =>
    let header := Visible.declareAll ([] :: e) i.declaresHere
    e.marks (h.attributes.filter fun a => ¬ h.HasInside a) ++ (i.sightings ([] :: e) ++
      (k.sightings header ++ (u.sightings header ++
        (header.marks (h.attributes.filter fun a => h.HasInside a) ++ b.sightings header))))
  | block h ss, e => e.marks h.attributes ++ sightingsAll ss ([] :: e)
  | ifThen h x t, e => e.marks h.attributes ++ (Visible.refs e x.refs ++ t.sightings e)
  | ifElse h x t f, e =>
    e.marks h.attributes ++ (Visible.refs e x.refs ++ (t.sightings e ++
      f.sightings (e.declareAll t.declaresHere)))
  | whileLoop h x b, e => e.marks h.attributes ++ (Visible.refs e x.refs ++ b.sightings e)
  | returns h v, e => e.marks h.attributes ++ Visible.refs e (v.toList.flatMap Expr.refs)
  | empty h, e => e.marks h.attributes

def sightingsAll : List Stmt → Visible → List Sighting
  | [], _ => []
  | s :: ss, e => s.sightings e ++ sightingsAll ss (e.declareAll s.declaresHere)

end

end Stmt

/-- The names that are used in the parameters and in the body. -/
def Function.sightings (f : Function) : List Sighting :=
  Visible.declarators sizes [[]] (f.params.map fun v => (v, none)) ++
    Stmt.sightingsAll sizes f.body.statements ([] :: Visible.declareAll [[]] f.params)

end

/-! ## No use is left out -/

section

variable {sizes : VarRef → List String}

/-- The references of the sightings. -/
abbrev Sighting.vars (os : List Sighting) : List VarRef := os.filterMap Sighting.var?

open Sighting (vars)

namespace Visible

@[simp] theorem vars_refs (e : Visible) (vs : List VarRef) : vars (Visible.refs e vs) = vs := by
  rw [vars, Visible.refs, List.filterMap_map]
  exact List.filterMap_some

@[simp] theorem vars_names (e : Visible) (ns : List String) : vars (Visible.names e ns) = [] := by
  rw [vars, Visible.names, List.filterMap_map]
  exact List.filterMap_none ns

@[simp] theorem vars_marks (e : Visible) (as : List Attribute) :
    vars (e.marks as) = Attribute.refsAll as := vars_refs e _

theorem vars_declarators (ds : List (VarRef × Option Expr)) (e : Visible) :
    vars (e.declarators sizes ds) = (ds.flatMap fun d => d.2.toList).flatMap Expr.refs := by
  induction ds generalizing e with
  | nil => rfl
  | cons d ds ih =>
    rw [declarators, vars, List.filterMap_append, List.filterMap_append, ← vars, vars_names,
      ← vars, vars_refs, ← vars, ih, List.flatMap_cons, List.flatMap_append, List.nil_append]

end Visible

theorem Attribute.refsAll_filter_perm (p : Attribute → Prop) [DecidablePred p]
    (as : List Attribute) :
    (refsAll (as.filter fun a => ¬ p a) ++ refsAll (as.filter p)).Perm (refsAll as) := by
  unfold refsAll
  simp only [← List.flatMap_append, decide_not]
  have hperm := List.perm_append_comm.trans (List.filter_append_perm (fun a => decide (p a)) as)
  exact (hperm.flatMap_right _).flatMap_right _

namespace Stmt

mutual

/-- The references of the sightings are those that are used in the statement. -/
theorem sightings_perm : ∀ (s : Stmt) (e : Visible), (vars (s.sightings sizes e)).Perm s.uses
  | declaration h ds, e => by
    simp [sightings, uses_eq, ownUses, children, attributes, head, values,
      Visible.vars_declarators, List.flatMap_map]
  | expression h x, e => by
    simp [sightings, uses_eq, ownUses, children, attributes, head, values]
  | forLoop h i k u b, e => by
    have hmarks := Attribute.refsAll_filter_perm h.HasInside h.attributes
    have hi := i.sightings_perm ([] :: e)
    have hk := k.sightings_perm (Visible.declareAll ([] :: e) i.declaresHere)
    have hu := u.sightings_perm (Visible.declareAll ([] :: e) i.declaresHere)
    have hb := b.sightings_perm (Visible.declareAll ([] :: e) i.declaresHere)
    rw [List.perm_iff_count] at hmarks hi hk hu hb ⊢
    intro v
    have hmarks := hmarks v
    simp only [List.count_append] at hmarks
    simp only [sightings, List.filterMap_append, Visible.vars_marks, uses_eq (forLoop h i k u b),
      ownUses, children, attributes, head, values, List.flatMap_cons, List.flatMap_nil,
      List.count_append, List.count_nil, hi, hk, hu, hb]
    omega
  | block h ss, e => by
    have hss := sightingsAll_perm ss ([] :: e)
    simp only [sightings, List.filterMap_append, Visible.vars_marks, uses_eq (block h ss), ownUses,
      children, attributes, head, values, List.flatMap_nil, List.append_nil]
    exact hss.append_left _
  | ifThen h x t, e => by
    have ht := t.sightings_perm e
    simp only [sightings, List.filterMap_append, Visible.vars_marks, Visible.vars_refs,
      uses_eq (ifThen h x t), ownUses, children, attributes, head, values, List.flatMap_cons,
      List.flatMap_nil, List.append_nil, List.append_assoc]
    exact (ht.append_left _).append_left _
  | ifElse h x t f, e => by
    have ht := t.sightings_perm e
    have hf := f.sightings_perm (e.declareAll t.declaresHere)
    simp only [sightings, List.filterMap_append, Visible.vars_marks, Visible.vars_refs,
      uses_eq (ifElse h x t f), ownUses, children, attributes, head, values, List.flatMap_cons,
      List.flatMap_nil, List.append_nil, List.append_assoc]
    exact ((ht.append hf).append_left _).append_left _
  | whileLoop h x b, e => by
    have hb := b.sightings_perm e
    simp only [sightings, List.filterMap_append, Visible.vars_marks, Visible.vars_refs,
      uses_eq (whileLoop h x b), ownUses, children, attributes, head, values, List.flatMap_cons,
      List.flatMap_nil, List.append_nil, List.append_assoc]
    exact (hb.append_left _).append_left _
  | returns h v, e => by
    simp [sightings, uses_eq, ownUses, children, attributes, head, values]
  | empty h, e => by
    simp [sightings, uses_eq, ownUses, children, attributes, head, values]

theorem sightingsAll_perm : ∀ (ss : List Stmt) (e : Visible),
    (vars (sightingsAll sizes ss e)).Perm (ss.flatMap uses)
  | [], _ => .refl []
  | s :: ss, e => by
    rw [sightingsAll, vars, List.filterMap_append, List.flatMap_cons]
    exact (s.sightings_perm e).append (sightingsAll_perm ss _)

end

end Stmt

/-- Every use of a variable in the body is a sighting, and there are no others in the tree. -/
theorem Function.sightings_perm (f : Function) :
    (vars (f.sightings sizes)).Perm (f.body.statements.flatMap Stmt.uses) := by
  have hparams : vars (Visible.declarators sizes [[]] (f.params.map fun v => (v, none))) = [] := by
    simp [Visible.vars_declarators, List.flatMap_map]
  rw [sightings, vars, List.filterMap_append, ← vars, hparams]
  exact Stmt.sightingsAll_perm _ _

end

end LoopNest
