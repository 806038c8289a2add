import LoopNest.Proofs.Expr.Relabel
import LoopNest.Proofs.Grammar.Mentions
import LoopNest.Proofs.Variable.Correspondence
import LoopNest.Stmt.Text

/-!
# Statements and functions with other numbers of variables

The spans of a statement and the numbers of its variables may be replaced, as in expressions. The
text stays the same, if the types of the variables do.

* `Numbering`: the new numbers, which may be others in attributes.
* `Stmt.relabel`, `Function.relabel`: a statement and a function with new numbers.
* `Pairing.Same`: two things are the same one under numberings that agree on corresponding
  variables.
* `Stmt.Alike`: so it is for two statements.
* `Stmt.layout_relabel`, `Function.layout_relabel`: the layout stays.
-/

namespace LoopNest

/-- New numbers for variables, and those for variables in attributes. -/
structure Numbering where
  vars : Nat → Nat
  marks : Nat → Nat

namespace Numbering

def all (σ : Nat → Nat) : Numbering := ⟨σ, σ⟩

/-- All variables in attributes have the number zero. -/
def plain (σ : Nat → Nat) : Numbering := ⟨σ, fun _ => 0⟩

end Numbering

/-! ## Trees -/

def Attribute.relabel (σ : Numbering) (a : Attribute) : Attribute :=
  ⟨a.name, a.args.map (Expr.relabel σ.marks), .none⟩

def Declarator.relabel (σ : Numbering) (d : Declarator) : Declarator :=
  ⟨d.var.relabel σ.vars, d.value.map (Expr.relabel σ.vars), .none⟩

def StmtHead.relabel (σ : Numbering) (h : StmtHead) : StmtHead :=
  ⟨.none, h.attributes.map (Attribute.relabel σ)⟩

namespace Stmt

mutual

/-- The statement without its spans, and with new numbers for its variables. -/
def relabel (σ : Numbering) : Stmt → Stmt
  | declaration h ds => declaration (h.relabel σ) (ds.map (Declarator.relabel σ))
  | expression h x => expression (h.relabel σ) (x.relabel σ.vars)
  | forLoop h i c u b =>
    forLoop (h.relabel σ) (i.relabel σ) (c.relabel σ) (u.relabel σ) (b.relabel σ)
  | block h ss => block (h.relabel σ) (relabelAll σ ss)
  | ifThen h x t => ifThen (h.relabel σ) (x.relabel σ.vars) (t.relabel σ)
  | ifElse h x t e => ifElse (h.relabel σ) (x.relabel σ.vars) (t.relabel σ) (e.relabel σ)
  | whileLoop h x b => whileLoop (h.relabel σ) (x.relabel σ.vars) (b.relabel σ)
  | returns h v => returns (h.relabel σ) (v.map (Expr.relabel σ.vars))
  | empty h => empty (h.relabel σ)

def relabelAll (σ : Numbering) : List Stmt → List Stmt
  | [] => []
  | s :: ss => s.relabel σ :: relabelAll σ ss

end

variable (σ : Numbering)

theorem relabelAll_eq (ss : List Stmt) : relabelAll σ ss = ss.map (relabel σ) := by
  induction ss with
  | nil => rfl
  | cons s ss ih => rw [relabelAll, ih, List.map_cons]

theorem head_relabel (s : Stmt) : (s.relabel σ).head = s.head.relabel σ := by
  cases s <;> rfl

theorem attributes_relabel (s : Stmt) :
    (s.relabel σ).attributes = s.attributes.map (Attribute.relabel σ) := by
  rw [attributes, head_relabel]
  rfl

theorem children_relabel (s : Stmt) : (s.relabel σ).children = s.children.map (relabel σ) := by
  cases s <;> simp [relabel, children, relabelAll_eq]

theorem statements_relabel (s : Stmt) :
    (s.relabel σ).statements = s.statements.map (relabel σ) := by
  induction s using children_induction with
  | step s ih =>
    rw [statements_eq, statements_eq, children_relabel, List.map_cons, List.map_flatMap,
      List.flatMap_map]
    congr 1
    exact List.flatMap_congr fun t ht => ih t ht

theorem declarators?_relabel (s : Stmt) :
    (s.relabel σ).declarators? = s.declarators?.map (List.map (Declarator.relabel σ)) := by
  cases s <;> rfl

theorem values_relabel (s : Stmt) : (s.relabel σ).values = s.values.map (Expr.relabel σ.vars) := by
  cases s with
  | declaration h ds =>
    simp only [relabel, values, List.flatMap_map, List.map_flatMap]
    refine List.flatMap_congr fun d _ => ?_
    cases hd : d.value <;> simp [Declarator.relabel, hd]
  | returns h v => cases v <;> rfl
  | _ => rfl

end Stmt

def Block.relabel (σ : Numbering) (b : Block) : Block := ⟨b.statements.map (Stmt.relabel σ), .none⟩

def Function.relabel (σ : Numbering) (f : Function) : Function where
  name := f.name
  returnType := f.returnType
  params := f.params.map (VarRef.relabel σ.vars)
  body := f.body.relabel σ
  attributes := f.attributes.map (Attribute.relabel σ)
  span := .none

/-! ## The variables of a tree -/

namespace Stmt

/-- The variables that the statement and those below it use or declare, but for attributes. -/
def plainRefs (s : Stmt) : List VarRef :=
  s.statements.flatMap fun t =>
    t.values.flatMap Expr.refs ++ ((t.declarators?).getD []).map Declarator.var

/-- The variables in the attributes of the statement and of those below it. -/
def markRefs (s : Stmt) : List VarRef :=
  s.statements.flatMap fun t => Attribute.refsAll t.attributes

/-- The first variable of every declaration. -/
def firsts (s : Stmt) : List VarRef :=
  s.statements.flatMap fun t => (((t.declarators?).getD []).take 1).map Declarator.var

theorem firsts_eq (s : Stmt) :
    s.firsts = (((s.declarators?).getD []).take 1).map Declarator.var ++
      s.children.flatMap firsts := by
  rw [firsts, statements_eq, List.flatMap_cons, List.flatMap_assoc]
  rfl

end Stmt

/-- The variables in a function, but for attributes. -/
def Function.plainRefs (f : Function) : List VarRef :=
  f.params ++ f.body.statements.flatMap Stmt.plainRefs

/-- The variables in attributes of a function. -/
def Function.markRefs (f : Function) : List VarRef :=
  Attribute.refsAll f.attributes ++ f.body.statements.flatMap Stmt.markRefs

/-- The variables that occur in a function, in attributes too. -/
def Function.refs (f : Function) : List VarRef := f.plainRefs ++ f.markRefs

/-- The variables of a function whose types its text shows. -/
def Function.declared (f : Function) : List VarRef :=
  f.params ++ f.body.statements.flatMap Stmt.declared

theorem Function.declared_subset (f : Function) : f.declared ⊆ f.refs := by
  intro v hv
  refine List.mem_append_left _ ?_
  rcases List.mem_append.mp hv with hv | hv
  · exact List.mem_append_left _ hv
  · refine List.mem_append_right _ ?_
    obtain ⟨s, hs, hv⟩ := List.mem_flatMap.mp hv
    refine List.mem_flatMap.mpr ⟨s, hs, ?_⟩
    obtain ⟨d, hd, rfl⟩ := List.mem_map.mp hv
    obtain ⟨t, ht, hd⟩ := List.mem_flatMap.mp hd
    exact List.mem_flatMap.mpr ⟨t, ht, List.mem_append_right _ (List.mem_map_of_mem hd)⟩

section

variable (σ : Numbering)

theorem Expr.refs_relabelled (μ : Nat → Nat) (xs : List Expr) :
    (xs.map (relabel μ)).flatMap refs = (xs.flatMap refs).map (VarRef.relabel μ) := by
  rw [← relabelAll_eq, refs_relabelAll]

theorem Attribute.refsAll_relabel (marks : List Attribute) :
    refsAll (marks.map (relabel σ)) = (refsAll marks).map (VarRef.relabel σ.marks) := by
  have hargs : (marks.map (relabel σ)).flatMap Attribute.args =
      (marks.flatMap Attribute.args).map (Expr.relabel σ.marks) := by
    rw [List.flatMap_map, List.map_flatMap]
    rfl
  rw [refsAll, hargs, Expr.refs_relabelled]
  rfl

theorem Stmt.plainRefs_relabel (s : Stmt) :
    (s.relabel σ).plainRefs = s.plainRefs.map (VarRef.relabel σ.vars) := by
  rw [plainRefs, statements_relabel, List.flatMap_map, plainRefs, List.map_flatMap]
  refine List.flatMap_congr fun t _ => ?_
  rw [values_relabel, Expr.refs_relabelled, declarators?_relabel, List.map_append]
  congr 1
  cases t.declarators? with
  | none => rfl
  | some ds =>
    simp only [Option.map_some, Option.getD_some, List.map_map]
    rfl

theorem Stmt.markRefs_relabel (s : Stmt) :
    (s.relabel σ).markRefs = s.markRefs.map (VarRef.relabel σ.marks) := by
  rw [markRefs, statements_relabel, List.flatMap_map, markRefs, List.map_flatMap]
  refine List.flatMap_congr fun t _ => ?_
  rw [attributes_relabel, Attribute.refsAll_relabel]

theorem Function.plainRefs_relabel (f : Function) :
    (f.relabel σ).plainRefs = f.plainRefs.map (VarRef.relabel σ.vars) := by
  simp only [plainRefs, relabel, Block.relabel, List.flatMap_map, Stmt.plainRefs_relabel,
    List.map_append, List.map_flatMap]

theorem Function.markRefs_relabel (f : Function) :
    (f.relabel σ).markRefs = f.markRefs.map (VarRef.relabel σ.marks) := by
  simp only [markRefs, relabel, Block.relabel, Attribute.refsAll_relabel, List.flatMap_map,
    Stmt.markRefs_relabel, List.map_append, List.map_flatMap]

end

/-! ## Agreement -/

/-- The numberings give corresponding variables the same number. In attributes they do so too if
`exact` holds; else all numbers may be the same there. -/
structure Pairing.Agree (exact : Prop) (K : Pairing) (σ τ : Numbering) : Prop where
  vars : ∀ i j, K.pairs i j → σ.vars i = τ.vars j
  marks : (exact ∧ ∀ i j, K.pairs i j → σ.marks i = τ.marks j) ∨ ∀ i j, σ.marks i = τ.marks j

/-- What comes of two numberings is the same if they agree. -/
def Pairing.Same {α : Type} (exact : Prop) (K : Pairing) (f g : Numbering → α) : Prop :=
  ∀ σ τ, K.Agree exact σ τ → f σ = g τ

namespace Pairing

variable {exact : Prop} {K L : Pairing} {σ τ : Numbering}

theorem Agree.mono (h : L.Agree exact σ τ) (hle : K.Le L) : K.Agree exact σ τ := by
  refine ⟨fun i j hij => h.vars i j (hle.pairs i j hij), h.marks.imp_left fun hmarks => ?_⟩
  exact ⟨hmarks.1, fun i j hij => hmarks.2 i j (hle.pairs i j hij)⟩

theorem Same.mono {α : Type} {f g : Numbering → α} (h : K.Same exact f g) (hle : K.Le L) :
    L.Same exact f g :=
  fun σ τ hagree => h σ τ (hagree.mono hle)

section

variable {α β γ : Type} {f : Numbering → α → γ} {g : Numbering → β → γ}

/-- Rows are the same if their items are. -/
theorem Same.map {as : List α} {bs : List β}
    (h : List.Forall₂ (fun a b => K.Same exact (fun σ => f σ a) fun τ => g τ b) as bs) :
    K.Same exact (fun σ => as.map (f σ)) fun τ => bs.map (g τ) := by
  intro σ τ hagree
  dsimp only
  induction h with
  | nil => rfl
  | cons first _ ih => exact congrArg₂ List.cons (first σ τ hagree) ih

theorem Same.option {o : Option α} {o' : Option β}
    (h : Option.Rel (fun a b => K.Same exact (fun σ => f σ a) fun τ => g τ b) o o') :
    K.Same exact (fun σ => o.map (f σ)) fun τ => o'.map (g τ) := by
  intro σ τ hagree
  cases h with
  | none => rfl
  | some hab => exact congrArg some (hab σ τ hagree)

end

theorem map_relabel_eq {μ ν : Nat → Nat} (hagree : ∀ i j, K.pairs i j → μ i = ν j)
    {vs ws : List VarRef} (h : List.Forall₂ K.Refs vs ws)
    (hnames : vs.map VarRef.name = ws.map VarRef.name) :
    vs.map (VarRef.relabel μ) = ws.map (VarRef.relabel ν) := by
  induction h with
  | nil => rfl
  | cons hvw _ ih =>
    obtain ⟨hname, hnames⟩ := List.cons.inj hnames
    rw [List.map_cons, List.map_cons, ih hnames, VarRef.relabel, hname, hagree _ _ hvw]
    rfl

end Pairing

namespace Expr

variable {x y : Expr} {exact : Prop} {K : Pairing}

theorem names_eq_of_shape (h : x.shape = y.shape) :
    x.refs.map VarRef.name = y.refs.map VarRef.name := by
  have hnames (z : Expr) : z.refs.map VarRef.name = z.shape.refs.map VarRef.name := by
    rw [shape, refs_relabel, List.map_map]
    rfl
  rw [hnames x, hnames y, h]

theorem same_of_shape (hshape : x.shape = y.shape) (hrefs : List.Forall₂ K.Refs x.refs y.refs) :
    K.Same exact (fun σ => x.relabel σ.vars) fun τ => y.relabel τ.vars :=
  fun _ _ hagree => relabel_eq hshape
    (Pairing.map_relabel_eq hagree.vars hrefs (names_eq_of_shape hshape))

end Expr

namespace Attribute

/-- The attribute without spans and numbers. -/
def shape (a : Attribute) : Attribute := a.relabel (.plain fun _ => 0)

variable {marks marks' : List Attribute} {exact : Prop} {K : Pairing}

theorem relabel_shape_eq {σ τ : Numbering} (h : marks.map shape = marks'.map shape)
    (hrefs : (refsAll marks).map (VarRef.relabel σ.marks) =
      (refsAll marks').map (VarRef.relabel τ.marks)) :
    marks.map (relabel σ) = marks'.map (relabel τ) := by
  induction marks generalizing marks' with
  | nil =>
    obtain rfl : marks' = [] := List.map_eq_nil_iff.mp h.symm
    rfl
  | cons a marks ih =>
    cases marks' with
    | nil => cases h
    | cons b marks' =>
      obtain ⟨hab, h⟩ := List.cons.inj h
      have hname : a.shape.name = b.shape.name := congrArg Attribute.name hab
      have hname : a.name = b.name := hname
      have hargs : Expr.relabelAll (fun _ => 0) a.args = Expr.relabelAll (fun _ => 0) b.args := by
        rw [Expr.relabelAll_eq, Expr.relabelAll_eq]
        exact congrArg Attribute.args hab
      have hlength : (a.args.flatMap Expr.refs).length = (b.args.flatMap Expr.refs).length := by
        have hmap := congrArg (fun xs => (xs.flatMap Expr.refs).length) hargs
        simpa only [Expr.refs_relabelAll, List.length_map] using hmap
      simp only [refsAll, List.flatMap_cons, List.flatMap_append] at hrefs
      obtain ⟨hfirst, hrest⟩ := Expr.map_append_inj hlength hrefs
      have hrelabel := Expr.relabelAll_eq_of hargs hfirst
      rw [Expr.relabelAll_eq, Expr.relabelAll_eq] at hrelabel
      rw [List.map_cons, List.map_cons, ih h hrest, relabel, relabel, hname, hrelabel]

theorem names_eq_of_shape (h : marks.map shape = marks'.map shape) :
    (refsAll marks).map VarRef.name = (refsAll marks').map VarRef.name := by
  have hnames (ms : List Attribute) :
      (refsAll ms).map VarRef.name = (refsAll (ms.map shape)).map VarRef.name := by
    have hmap : ms.map shape = ms.map (relabel (.plain fun _ => 0)) := rfl
    rw [hmap, refsAll_relabel, List.map_map]
    rfl
  rw [hnames marks, hnames marks', h]

/-- The variables are the same ones, or there are none if it matters. -/
theorem same_of_shape (h : marks.map shape = marks'.map shape)
    (hrefs : List.Forall₂ K.Refs (refsAll marks) (refsAll marks') ∨ (exact → refsAll marks = [])) :
    K.Same exact (fun σ => marks.map (relabel σ)) fun τ => marks'.map (relabel τ) := by
  intro σ τ hagree
  have hnames := names_eq_of_shape h
  refine relabel_shape_eq h ?_
  rcases hagree.marks with ⟨hexact, hmarks⟩ | hmarks
  · rcases hrefs with hrefs | hrefs
    · exact Pairing.map_relabel_eq hmarks hrefs hnames
    · rw [hrefs hexact] at hnames ⊢
      rw [List.map_eq_nil_iff.mp hnames.symm]
      rfl
  · have hconst (ν : Nat → Nat) (k : Nat) (hν : ∀ i, ν i = k) (vs : List VarRef) :
        vs.map (VarRef.relabel ν) = (vs.map VarRef.name).map fun n => ⟨k, n⟩ := by
      rw [List.map_map]
      exact List.map_congr_left fun v _ => by rw [VarRef.relabel, hν]; rfl
    rw [hconst σ.marks (τ.marks 0) (fun i => hmarks i 0), hconst τ.marks (τ.marks 0) (fun j => ?_),
      hnames]
    rw [← hmarks 0 j, hmarks 0 0]

end Attribute

/-! ## Statements that are alike -/

/-- The contexts follow one another with more pairs, for which `P` holds. -/
def Context.FollowsBy (exact : Prop) (K : Pairing) (c d : Context) (P : Pairing → Prop) : Prop :=
  ∃ L, K.Le L ∧ Context.Follows exact L c d ∧ P L

namespace Stmt

/-- The statements are the same but for spans and numbers, and the first variable of each
declaration has its type. -/
structure Alike (exact : Prop) (K : Pairing) (s s' : Stmt) : Prop where
  same : K.Same exact (fun σ => s.relabel σ) fun τ => s'.relabel τ
  firsts : ∀ v ∈ s'.firsts, ∃ i, K.typed i v.id

/-- The heads have the same attributes. -/
def AlikeHeads (exact : Prop) (K : Pairing) (h h' : StmtHead) : Prop :=
  K.Same exact (fun σ => h.attributes.map (Attribute.relabel σ))
    fun τ => h'.attributes.map (Attribute.relabel τ)

namespace Alike

variable {exact : Prop} {K L : Pairing} {h h' : StmtHead} {x x' : Expr}
  {i i' k k' u u' b b' t t' e e' : Stmt}

theorem mono {s s' : Stmt} (hs : s.Alike exact K s') (hle : K.Le L) : s.Alike exact L s' :=
  ⟨hs.same.mono hle, fun v hv => (hs.firsts v hv).imp fun i hi => hle.typed i v.id hi⟩

theorem lasting (exact : Prop) : Pairing.Lasting (Stmt.Alike exact) := ⟨fun hle h => h.mono hle⟩

theorem relabel_head {σ τ : Numbering} (hh : AlikeHeads exact K h h')
    (hagree : K.Agree exact σ τ) : h.relabel σ = h'.relabel τ :=
  congrArg (StmtHead.mk Span.none) (hh σ τ hagree)

theorem declaration {ds ds' : List Declarator} (hh : AlikeHeads exact K h h')
    (hds : K.Same exact (fun σ => ds.map (Declarator.relabel σ))
      fun τ => ds'.map (Declarator.relabel τ))
    (hfirst : ∀ d ∈ ds'.take 1, ∃ i, K.typed i d.var.id) :
    (declaration h ds).Alike exact K (declaration h' ds') := by
  refine ⟨fun σ τ hagree => congrArg₂ Stmt.declaration (relabel_head hh hagree) (hds σ τ hagree),
    fun v hv => ?_⟩
  rw [firsts_eq] at hv
  have hv : v ∈ (ds'.take 1).map Declarator.var := by
    simpa [declarators?, children, List.map_take] using hv
  obtain ⟨d, hd, rfl⟩ := List.mem_map.mp hv
  exact hfirst d hd

theorem expression (hh : AlikeHeads exact K h h')
    (hx : K.Same exact (fun σ => x.relabel σ.vars) fun τ => x'.relabel τ.vars) :
    (expression h x).Alike exact K (expression h' x') :=
  ⟨fun σ τ hagree => congrArg₂ Stmt.expression (relabel_head hh hagree) (hx σ τ hagree),
    by simp [firsts_eq, declarators?, children]⟩

theorem returns {v v' : Option Expr} (hh : AlikeHeads exact K h h')
    (hv : K.Same exact (fun σ => v.map (Expr.relabel σ.vars)) fun τ => v'.map (Expr.relabel τ.vars)) :
    (returns h v).Alike exact K (returns h' v') :=
  ⟨fun σ τ hagree => congrArg₂ Stmt.returns (relabel_head hh hagree) (hv σ τ hagree),
    by simp [firsts_eq, declarators?, children]⟩

theorem empty (hh : AlikeHeads exact K h h') : (empty h).Alike exact K (empty h') :=
  ⟨fun _ _ hagree => congrArg Stmt.empty (relabel_head hh hagree),
    by simp [firsts_eq, declarators?, children]⟩

theorem whileLoop (hh : AlikeHeads exact K h h')
    (hx : K.Same exact (fun σ => x.relabel σ.vars) fun τ => x'.relabel τ.vars)
    (hb : b.Alike exact K b') : (whileLoop h x b).Alike exact K (whileLoop h' x' b') := by
  refine ⟨fun σ τ hagree => ?_, ?_⟩
  · simp only [relabel, relabel_head hh hagree, hx σ τ hagree, hb.same σ τ hagree]
  · simpa [firsts_eq (Stmt.whileLoop h' x' b'), declarators?, children] using hb.firsts

theorem ifThen (hh : AlikeHeads exact K h h')
    (hx : K.Same exact (fun σ => x.relabel σ.vars) fun τ => x'.relabel τ.vars)
    (ht : t.Alike exact K t') : (ifThen h x t).Alike exact K (ifThen h' x' t') := by
  refine ⟨fun σ τ hagree => ?_, ?_⟩
  · simp only [relabel, relabel_head hh hagree, hx σ τ hagree, ht.same σ τ hagree]
  · simpa [firsts_eq (Stmt.ifThen h' x' t'), declarators?, children] using ht.firsts

theorem ifElse (hh : AlikeHeads exact K h h')
    (hx : K.Same exact (fun σ => x.relabel σ.vars) fun τ => x'.relabel τ.vars)
    (ht : t.Alike exact K t') (he : e.Alike exact K e') :
    (ifElse h x t e).Alike exact K (ifElse h' x' t' e') := by
  refine ⟨fun σ τ hagree => ?_, fun v hv => ?_⟩
  · simp only [relabel, relabel_head hh hagree, hx σ τ hagree, ht.same σ τ hagree,
      he.same σ τ hagree]
  · have hv : v ∈ t'.firsts ∨ v ∈ e'.firsts := by
      simpa [firsts_eq (Stmt.ifElse h' x' t' e'), declarators?, children] using hv
    rcases hv with hv | hv
    · exact ht.firsts v hv
    · exact he.firsts v hv

theorem same_map {ss ss' : List Stmt} (h : List.Forall₂ (Stmt.Alike exact K) ss ss') :
    K.Same exact (fun σ => ss.map (relabel σ)) fun τ => ss'.map (relabel τ) :=
  .map (h.imp fun _ _ hs => hs.same)

theorem typed_firsts {ss ss' : List Stmt} (h : List.Forall₂ (Stmt.Alike exact K) ss ss') :
    ∀ s ∈ ss', ∀ v ∈ s.firsts, ∃ i, K.typed i v.id := by
  induction h with
  | nil => exact List.forall_mem_nil _
  | cons first _ ih => exact List.forall_mem_cons.mpr ⟨first.firsts, ih⟩

theorem block {ss ss' : List Stmt} (hh : AlikeHeads exact K h h')
    (hss : List.Forall₂ (Stmt.Alike exact K) ss ss') :
    (block h ss).Alike exact K (block h' ss') := by
  refine ⟨fun σ τ hagree => ?_, ?_⟩
  · simp only [relabel, relabelAll_eq, relabel_head hh hagree]
    exact congrArg (Stmt.block _) (same_map hss σ τ hagree)
  · rw [firsts_eq]
    simpa [declarators?, children] using fun v s hs hv => typed_firsts hss s hs v hv

theorem forLoop (hh : AlikeHeads exact K h h') (hi : i.Alike exact K i') (hk : k.Alike exact K k')
    (hu : u.Alike exact K u') (hb : b.Alike exact K b') :
    (forLoop h i k u b).Alike exact K (forLoop h' i' k' u' b') := by
  refine ⟨fun σ τ hagree => ?_, fun v hv => ?_⟩
  · simp only [relabel, relabel_head hh hagree, hi.same σ τ hagree, hk.same σ τ hagree,
      hu.same σ τ hagree, hb.same σ τ hagree]
  · have hv : v ∈ i'.firsts ∨ v ∈ k'.firsts ∨ v ∈ u'.firsts ∨ v ∈ b'.firsts := by
      simpa [firsts_eq (Stmt.forLoop h' i' k' u' b'), declarators?, children] using hv
    rcases hv with hv | hv | hv | hv
    · exact hi.firsts v hv
    · exact hk.firsts v hv
    · exact hu.firsts v hv
    · exact hb.firsts v hv

end Alike

end Stmt

/-! ## Texts -/

section

variable (σ : Numbering) {vars vars' : VarTable}

theorem Attribute.text_relabel (a : Attribute) : (a.relabel σ).text = a.text := by
  have hargs : (a.relabel σ).args.map Expr.text = a.args.map Expr.text := by
    rw [relabel, List.map_map]
    exact List.map_congr_left fun x _ => Expr.text_relabel σ.marks x
  have hempty : (a.relabel σ).args.isEmpty = a.args.isEmpty := List.isEmpty_map
  rw [text, text, hargs, hempty]
  rfl

/-- The type of a variable is that of the variable with the new number. -/
def VarRef.KeepsType (σ : Numbering) (vars vars' : VarTable) (v : VarRef) : Prop :=
  vars'.type? (σ.vars v.id) = vars.type? v.id

variable {σ} in
theorem VarRef.KeepsType.typeOf {v : VarRef} (h : v.KeepsType σ vars vars') :
    vars'.typeOf (v.relabel σ.vars) = vars.typeOf v := by
  rw [VarTable.typeOf, VarTable.typeOf]
  exact congrArg (Option.getD · VarType.int) h

theorem Declarator.text_relabel {d : Declarator} (h : d.var.KeepsType σ vars vars') :
    (d.relabel σ).text vars' = d.text vars := by
  have hstarred : (d.var.relabel σ.vars).starred vars' = d.var.starred vars := by
    rw [VarRef.starred, VarRef.starred, h.typeOf]
    rfl
  unfold text relabel
  cases d.value with
  | none => exact hstarred
  | some x => simp only [Option.map_some, hstarred, Expr.text_relabel]

theorem declarationText_relabel {ds : List Declarator}
    (h : ∀ d ∈ ds, d.var.KeepsType σ vars vars') :
    declarationText vars' (ds.map (Declarator.relabel σ)) = declarationText vars ds := by
  have htexts : (ds.map (Declarator.relabel σ)).map (Declarator.text vars') =
      ds.map (Declarator.text vars) := by
    rw [List.map_map]
    exact List.map_congr_left fun d hd => Declarator.text_relabel σ (h d hd)
  have hbase : baseTypeOf vars' (ds.map (Declarator.relabel σ)) = baseTypeOf vars ds := by
    cases ds with
    | nil => rfl
    | cons d ds => exact congrArg VarType.base (h d List.mem_cons_self).typeOf
  rw [declarationText, declarationText, htexts, hbase]

namespace Stmt

theorem headerMarks_relabel (marks : List Attribute) :
    headerMarks (marks.map (Attribute.relabel σ)) = headerMarks marks := by
  have htexts : (marks.map (Attribute.relabel σ)).map Attribute.text =
      marks.map Attribute.text := by
    rw [List.map_map]
    exact List.map_congr_left fun a _ => a.text_relabel σ
  rw [headerMarks, headerMarks, htexts, List.isEmpty_map]

theorem marksBefore_relabel (marks : List Attribute) :
    marksBefore (marks.map (Attribute.relabel σ)) = marksBefore marks := by
  rw [marksBefore, List.map_map]
  refine List.map_congr_left fun a _ => ?_
  rw [Function.comp, a.text_relabel σ]

theorem isPlainBlock_relabel (s : Stmt) : (s.relabel σ).isPlainBlock = s.isPlainBlock := by
  cases s with
  | block h ss => exact List.isEmpty_map
  | _ => rfl

theorem governed_relabel (header : String) (s : Stmt) (inner : List Layout.Step) :
    governed header (s.relabel σ) inner = governed header s inner := by
  rw [governed, governed, isPlainBlock_relabel]

/-- The declared variables of a statement keep their types. -/
def KeepsTypes (σ : Numbering) (vars vars' : VarTable) (s : Stmt) : Prop :=
  ∀ v ∈ s.declared, v.KeepsType σ vars vars'

variable {σ} in
theorem KeepsTypes.children {s : Stmt} (h : s.KeepsTypes σ vars vars') :
    ∀ t ∈ s.children, t.KeepsTypes σ vars vars' := by
  intro t ht v hv
  refine h v ?_
  rw [declared_eq]
  exact List.mem_append_right _ (List.mem_flatMap.mpr ⟨t, ht, hv⟩)

theorem clauseText_relabel {s : Stmt} (h : s.KeepsTypes σ vars vars') :
    (s.relabel σ).clauseText vars' = s.clauseText vars := by
  cases s with
  | declaration h ds =>
    refine declarationText_relabel σ fun d hd => ?_
    exact h d.var (by simpa [declared_eq, declarators?, children] using ⟨d, hd, rfl⟩)
  | expression h x => exact x.text_relabel σ.vars
  | _ => rfl

mutual

/-- The layout depends on shapes and types only. -/
theorem layout_relabel : ∀ {s : Stmt}, s.KeepsTypes σ vars vars' →
    (s.relabel σ).layout vars' = s.layout vars
  | declaration h ds, hs => by
    have htext := clauseText_relabel σ hs
    simp only [relabel, clauseText] at htext
    simp only [relabel, layout, StmtHead.relabel, marksBefore_relabel, htext]
  | expression h x, _ => by
    simp only [relabel, layout, StmtHead.relabel, marksBefore_relabel, Expr.text_relabel]
  | forLoop h i c u b, hs => by
    have hbelow := hs.children
    have hi := clauseText_relabel σ (hbelow i (by simp [children]))
    have hc := clauseText_relabel σ (hbelow c (by simp [children]))
    have hu := clauseText_relabel σ (hbelow u (by simp [children]))
    have hb := layout_relabel (hbelow b (by simp [children]))
    simp only [relabel, layout, StmtHead.relabel, headerText, governed_relabel,
      headerMarks_relabel, hi, hc, hu, hb]
  | block h ss, hs => by
    have hbelow : ∀ t ∈ ss, t.KeepsTypes σ vars vars' := hs.children
    simp only [relabel, layout, StmtHead.relabel, marksBefore_relabel, layoutAll_relabel hbelow]
  | ifThen h x t, hs => by
    have ht := layout_relabel (hs.children t (by simp [children]))
    simp only [relabel, layout, StmtHead.relabel, marksBefore_relabel, Expr.text_relabel,
      governed_relabel, ht]
  | ifElse h x t e, hs => by
    have ht := layout_relabel (hs.children t (by simp [children]))
    have he := layout_relabel (hs.children e (by simp [children]))
    simp only [relabel, layout, StmtHead.relabel, marksBefore_relabel, Expr.text_relabel,
      governed_relabel, ht, he]
  | whileLoop h x b, hs => by
    have hb := layout_relabel (hs.children b (by simp [children]))
    simp only [relabel, layout, StmtHead.relabel, marksBefore_relabel, Expr.text_relabel,
      governed_relabel, hb]
  | returns h none, _ => by
    simp only [relabel, layout, StmtHead.relabel, marksBefore_relabel, Option.map_none]
  | returns h (some x), _ => by
    simp only [relabel, layout, StmtHead.relabel, marksBefore_relabel, Option.map_some,
      Expr.text_relabel]
  | empty h, _ => by simp only [relabel, layout, StmtHead.relabel, marksBefore_relabel]

theorem layoutAll_relabel : ∀ {ss : List Stmt}, (∀ s ∈ ss, s.KeepsTypes σ vars vars') →
    layoutAll vars' (relabelAll σ ss) = layoutAll vars ss
  | [], _ => rfl
  | s :: ss, h => by
    obtain ⟨hs, hss⟩ := List.forall_mem_cons.mp h
    rw [relabelAll, layoutAll, layoutAll, layout_relabel hs, layoutAll_relabel hss]

end

end Stmt

theorem Function.layout_relabel {f : Function}
    (hparams : ∀ v ∈ f.params, v.KeepsType σ vars vars')
    (hbody : ∀ s ∈ f.body.statements, s.KeepsTypes σ vars vars') :
    (f.relabel σ).layout vars' = f.layout vars := by
  have htexts : (f.params.map (VarRef.relabel σ.vars)).map (VarRef.parameterText vars') =
      f.params.map (VarRef.parameterText vars) := by
    rw [List.map_map]
    refine List.map_congr_left fun v hv => ?_
    simp only [Function.comp, VarRef.parameterText, VarRef.starred, (hparams v hv).typeOf]
    rfl
  have hbelow := Stmt.layoutAll_relabel σ hbody
  rw [Stmt.relabelAll_eq] at hbelow
  simp only [layout, relabel, headerText, Block.relabel, Stmt.marksBefore_relabel, htexts, hbelow]

end

end LoopNest
