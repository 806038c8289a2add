import LoopNest.Proofs.Variable.Frames

/-!
# What names stand for

A `Context` is all that the reading of a name goes by: the variables so far and the stack of
bindings. It forgets the tree of scopes.

* `Context.Resolves`, `Context.Declares`: a name is used, a name is declared where its scope does
  not declare it yet.
* `Context.Chain`: steps are made one after the other, each where the one before it ended.
* `Context.Refers`: names are used one after the other.
* `Context.Sound`: a binding of a name leads to a variable of that name.
* `Context.Extends`: variables are only added.
* `Context.Keeps`: a name that stands for something goes on to do so, in the same frame.
-/

namespace LoopNest

/-- The variables of `t` are there in `u` too, at the same places. -/
structure VarTable.Extends (t u : VarTable) : Prop where
  size_le : t.size ≤ u.size
  get?_eq : ∀ id < t.size, u.get? id = t.get? id

namespace VarTable.Extends

variable {t u w : VarTable}

theorem refl (t : VarTable) : t.Extends t := ⟨Nat.le_refl _, fun _ _ => rfl⟩

theorem trans (htu : t.Extends u) (huw : u.Extends w) : t.Extends w :=
  ⟨Nat.le_trans htu.size_le huw.size_le, fun id hid =>
    (huw.get?_eq id (Nat.lt_of_lt_of_le hid htu.size_le)).trans (htu.get?_eq id hid)⟩

theorem add (t : VarTable) (v : Variable) : t.Extends (t.add v).2 :=
  ⟨by simp, fun _ hid => get?_add_of_lt v hid⟩

end VarTable.Extends

/-- What names stand for at a place in a program. The innermost bindings come first. -/
structure Context where
  vars : VarTable
  frames : List Frame

namespace Context

/-- No variables, and the global scope. -/
def initial : Context := ⟨{}, [[]]⟩

def find? (c : Context) (name : String) : Option VarRef := Frame.find? c.frames name

def push (c : Context) : Context := { c with frames := [] :: c.frames }

def pop (c : Context) : Context := { c with frames := c.frames.tail }

def declare (c : Context) (name : String) (type : VarType) (span : Span) : VarRef × Context :=
  let (v, vars) := c.vars.declare name type span
  (v, ⟨vars, Frame.bindInner (name, v) c.frames⟩)

def resolve (c : Context) (name : String) (span : Span) : VarRef × Context :=
  match c.find? name with
  | some v => (v, c)
  | none =>
    let (v, vars) := c.vars.declareImplicit name span
    (v, ⟨vars, Frame.bindOuter (name, v) c.frames⟩)

/-- The name of `v` is used, and it stands for `v`. -/
def Resolves (c : Context) (v : VarRef) (c' : Context) : Prop :=
  ∃ span, c.resolve v.name span = (v, c')

/-- The variable `v` is declared, and its scope does not declare its name yet. -/
def Declares (c : Context) (v : VarRef) (type : VarType) (c' : Context) : Prop :=
  (c.frames.headD []).lookup v.name = none ∧ ∃ span, c.declare v.name type span = (v, c')

/-- Steps for all items of a list, one after the other. -/
inductive Chain {α : Type} (S : Context → α → Context → Prop) : Context → List α → Context → Prop
  | nil (c : Context) : Chain S c [] c
  | cons {c c₁ c₂ : Context} {a : α} {as : List α} (first : S c a c₁)
      (rest : Chain S c₁ as c₂) : Chain S c (a :: as) c₂

/-- The names of the variables are used in that order, and they stand for the variables. -/
abbrev Refers (c : Context) (vs : List VarRef) (c' : Context) : Prop := Chain Resolves c vs c'

/-- Every binding leads to a variable of the name that is bound. -/
structure Sound (c : Context) : Prop where
  frames_ne : c.frames ≠ []
  binding : ∀ f ∈ c.frames, ∀ b ∈ f,
    b.2.name = b.1 ∧ (c.vars.get? b.2.id).map Variable.name = some b.1

variable {c c' c₁ c₂ : Context} {v w : VarRef} {vs : List VarRef} {type : VarType} {name : String}

/-! ## The two ways to resolve a name -/

theorem resolves_cases (h : c.Resolves v c') :
    (c.find? v.name = some v ∧ c' = c) ∨
      (c.find? v.name = none ∧ v.id = c.vars.size ∧
        ∃ span, c' = ⟨(c.vars.declareImplicit v.name span).2,
          Frame.bindOuter (v.name, v) c.frames⟩) := by
  obtain ⟨span, h⟩ := h
  unfold resolve at h
  cases hfind : c.find? v.name with
  | some w =>
    simp only [hfind, Prod.mk.injEq] at h
    obtain ⟨rfl, rfl⟩ := h
    exact .inl ⟨rfl, rfl⟩
  | none =>
    simp only [hfind, Prod.mk.injEq] at h
    obtain ⟨hv, hc⟩ := h
    refine .inr ⟨rfl, ?_, span, ?_⟩
    · rw [← hv]
      rfl
    · rw [← hc, hv]

theorem declares_cases (h : c.Declares v type c') :
    (c.frames.headD []).lookup v.name = none ∧ v.id = c.vars.size ∧
      ∃ span, c' = ⟨(c.vars.declare v.name type span).2,
        Frame.bindInner (v.name, v) c.frames⟩ := by
  obtain ⟨hfree, span, h⟩ := h
  simp only [declare, Prod.mk.injEq] at h
  obtain ⟨hv, hc⟩ := h
  refine ⟨hfree, ?_, span, ?_⟩
  · rw [← hv]
    rfl
  · rw [← hc, hv]

theorem Resolves.name_found (h : c.Resolves v c') (hfind : c.find? v.name = some w) :
    v = w ∧ c' = c := by
  rcases resolves_cases h with ⟨hv, hc⟩ | ⟨hnone, _⟩
  · exact ⟨Option.some.inj (hv.symm.trans hfind), hc⟩
  · rw [hnone] at hfind
    cases hfind

namespace Chain

variable {α : Type} {S : Context → α → Context → Prop} {as bs : List α}

theorem single {a : α} (h : S c a c') : Chain S c [a] c' := .cons h (.nil c')

theorem append (h : Chain S c as c₁) (h' : Chain S c₁ bs c₂) : Chain S c (as ++ bs) c₂ := by
  induction h with
  | nil => exact h'
  | cons first _ ih => exact .cons first (ih h')

theorem split (h : Chain S c (as ++ bs) c') : ∃ c₁, Chain S c as c₁ ∧ Chain S c₁ bs c' := by
  induction as generalizing c with
  | nil => exact ⟨c, .nil c, h⟩
  | cons a as ih =>
    obtain ⟨⟩ | ⟨first, rest⟩ := h
    obtain ⟨c₁, has, hbs⟩ := ih rest
    exact ⟨c₁, .cons first has, hbs⟩

end Chain

/-! ## Variables are only added -/

/-- The variables of `c` are there in `c'` too. -/
def Extends (c c' : Context) : Prop := c.vars.Extends c'.vars

theorem Extends.refl (c : Context) : c.Extends c := VarTable.Extends.refl c.vars

theorem Extends.trans (h : c.Extends c₁) (h' : c₁.Extends c₂) : c.Extends c₂ :=
  VarTable.Extends.trans h h'

theorem Resolves.extends (h : c.Resolves v c') : c.Extends c' := by
  rcases resolves_cases h with ⟨_, rfl⟩ | ⟨_, _, _, rfl⟩
  · exact .refl _
  · exact .add _ _

theorem Declares.extends (h : c.Declares v type c') : c.Extends c' := by
  obtain ⟨_, _, _, rfl⟩ := declares_cases h
  exact .add _ _

theorem Chain.extends {α : Type} {S : Context → α → Context → Prop} {as : List α}
    (hS : ∀ {c a c'}, S c a c' → c.Extends c') (h : Chain S c as c') : c.Extends c' := by
  induction h with
  | nil => exact .refl _
  | cons first _ ih => exact (hS first).trans ih

/-- A variable that is declared has the next number and the type of its declaration. -/
theorem Declares.get? (h : c.Declares v type c') :
    v.id = c.vars.size ∧ v.id < c'.vars.size ∧ c'.vars.type? v.id = some type := by
  obtain ⟨_, hid, span, rfl⟩ := declares_cases h
  refine ⟨hid, ?_, ?_⟩
  · simp [VarTable.declare, hid]
  · rw [VarTable.type?, hid, VarTable.declare, VarTable.get?_add_self]
    rfl

/-! ## Bindings -/

theorem mem_of_lookup {f : Frame} {name : String} {v : VarRef} (h : f.lookup name = some v) :
    (name, v) ∈ f := by
  obtain ⟨l₁, l₂, rfl, -⟩ := List.lookup_eq_some_iff.mp h
  simp

theorem mem_bindInner {b : String × VarRef} {fs : List Frame} {g : Frame}
    (h : g ∈ Frame.bindInner b fs) {a : String × VarRef} (ha : a ∈ g) :
    a = b ∨ ∃ f ∈ fs, a ∈ f := by
  cases fs with
  | nil => cases h
  | cons f fs =>
    rcases List.mem_cons.mp h with rfl | hg
    · rcases List.mem_cons.mp ha with rfl | ha
      · exact .inl rfl
      · exact .inr ⟨f, List.mem_cons_self, ha⟩
    · exact .inr ⟨g, List.mem_cons_of_mem _ hg, ha⟩

theorem bindOuter_induction {P : List Frame → List Frame → Prop} (b : String × VarRef)
    (hnil : P [] []) (hone : ∀ f, P [f] [b :: f]) (htwo : ∀ f g, P [f, g] [b :: f, g])
    (hmore : ∀ f fs, P fs (Frame.bindOuter b fs) → P (f :: fs) (f :: Frame.bindOuter b fs))
    (fs : List Frame) : P fs (Frame.bindOuter b fs) := by
  match fs with
  | [] => exact hnil
  | [f] => exact hone f
  | [f, g] => exact htwo f g
  | f :: g :: h :: fs =>
    exact hmore f (g :: h :: fs) (bindOuter_induction b hnil hone htwo hmore (g :: h :: fs))

theorem mem_bindOuter {b : String × VarRef} {fs : List Frame} :
    ∀ g ∈ Frame.bindOuter b fs, ∀ a ∈ g, a = b ∨ ∃ f ∈ fs, a ∈ f := by
  refine bindOuter_induction (P := fun fs gs => ∀ g ∈ gs, ∀ a ∈ g, a = b ∨ ∃ f ∈ fs, a ∈ f)
    b ?_ ?_ ?_ ?_ fs
  · simp
  · simp
  · intro f g
    simp only [List.mem_cons, List.not_mem_nil, or_false, exists_eq_or_imp, exists_eq_left]
    rintro _ (rfl | rfl) a ha
    · rcases List.mem_cons.mp ha with ha | ha
      · exact .inl ha
      · exact .inr (.inl ha)
    · exact .inr (.inr ha)
  · intro f fs ih g hg a ha
    rcases List.mem_cons.mp hg with rfl | hg
    · exact .inr ⟨g, List.mem_cons_self, ha⟩
    · rcases ih g hg a ha with hab | ⟨f', hf', ha⟩
      · exact .inl hab
      · exact .inr ⟨f', List.mem_cons_of_mem _ hf', ha⟩

theorem bindOuter_ne_nil {b : String × VarRef} {fs : List Frame} (h : fs ≠ []) :
    Frame.bindOuter b fs ≠ [] := by
  revert h
  exact bindOuter_induction (P := fun fs gs => fs ≠ [] → gs ≠ []) b (fun h => h)
    (fun _ _ => by simp) (fun _ _ _ => by simp) (fun _ _ _ _ => by simp) fs

namespace Sound

theorem initial : initial.Sound := ⟨by simp [Context.initial], by simp [Context.initial]⟩

theorem push (h : c.Sound) : c.push.Sound := by
  refine ⟨by simp [Context.push], fun f hf b hb => ?_⟩
  rcases List.mem_cons.mp hf with rfl | hf
  · cases hb
  · exact h.binding f hf b hb

theorem pop (h : c.Sound) (hne : c.frames.tail ≠ []) : c.pop.Sound :=
  ⟨hne, fun f hf b hb => h.binding f (List.mem_of_mem_tail hf) b hb⟩

/-- A table with one more variable has the old bindings and may have one of the new variable. -/
theorem add {frames : List Frame} (h : c.Sound) (x : Variable) (hne : frames ≠ [])
    (hmem : ∀ g ∈ frames, ∀ a ∈ g, a = (x.name, ⟨c.vars.size, x.name⟩) ∨ ∃ f ∈ c.frames, a ∈ f) :
    (⟨(c.vars.add x).2, frames⟩ : Context).Sound := by
  refine ⟨hne, fun g hg a ha => ?_⟩
  rcases hmem g hg a ha with rfl | ⟨f, hf, hb⟩
  · exact ⟨rfl, by rw [VarTable.get?_add_self]; rfl⟩
  · obtain ⟨hname, hget⟩ := h.binding f hf a hb
    refine ⟨hname, ?_⟩
    have hlt : a.2.id < c.vars.size := by
      obtain ⟨x, hx, _⟩ := Option.map_eq_some_iff.mp hget
      exact (Array.getElem?_eq_some_iff.mp hx).1
    rw [VarTable.get?_add_of_lt x hlt]
    exact hget

end Sound

theorem eq_ref (hid : v.id = c.vars.size) : v = ⟨c.vars.size, v.name⟩ := by
  cases v
  simp_all

theorem Resolves.sound (h : c.Resolves v c') (hc : c.Sound) : c'.Sound := by
  rcases resolves_cases h with ⟨_, rfl⟩ | ⟨_, hid, span, rfl⟩
  · exact hc
  · refine hc.add _ (bindOuter_ne_nil hc.frames_ne) fun g hg a ha => ?_
    rw [← eq_ref hid]
    exact mem_bindOuter g hg a ha

theorem Declares.sound (h : c.Declares v type c') (hc : c.Sound) : c'.Sound := by
  obtain ⟨_, hid, span, rfl⟩ := declares_cases h
  refine hc.add _ ?_ fun g hg a ha => ?_
  · cases hframes : c.frames with
    | nil => exact absurd hframes hc.frames_ne
    | cons f fs => simp [Frame.bindInner]
  · rw [← eq_ref hid]
    exact mem_bindInner hg ha

theorem Refers.sound (h : c.Refers vs c') (hc : c.Sound) : c'.Sound := by
  induction h with
  | nil => exact hc
  | cons first _ ih => exact ih (first.sound hc)

theorem find?_spec (hc : c.Sound) (h : c.find? name = some v) :
    v.name = name ∧ (c.vars.get? v.id).map Variable.name = some name := by
  obtain ⟨f, hf, hlookup⟩ := List.exists_of_findSome?_eq_some h
  exact hc.binding f hf (name, v) (mem_of_lookup hlookup)

/-- The scopes resolve a name as their frames do. -/
theorem resolves_of_scopes {s : Scopes} {t : VarTable} (hs : s.WellFormed)
    (hc : (⟨t, s.frames⟩ : Context).Sound) (n : String) (span : Span) :
    (s.resolve t n span).1.name = n ∧ (s.resolve t n span).2.2.WellFormed ∧
      (⟨t, s.frames⟩ : Context).Resolves (s.resolve t n span).1
        ⟨(s.resolve t n span).2.1, (s.resolve t n span).2.2.frames⟩ := by
  have hlookup : s.lookup n = find? ⟨t, s.frames⟩ n := Scopes.lookup_eq n
  unfold Scopes.resolve
  cases hfind : find? ⟨t, s.frames⟩ n with
  | some v =>
    have hname := (find?_spec hc hfind).1
    rw [hlookup, hfind]
    refine ⟨hname, hs, span, ?_⟩
    simp only [resolve, hname, hfind]
  | none =>
    rw [hlookup, hfind]
    have hframes := Scopes.frames_bind_functionScope n ⟨t.size, n⟩ hs
    refine ⟨rfl, hs.bind _ _ _, span, ?_⟩
    have hnone : find? ⟨t, s.frames⟩ (t.declareImplicit n span).1.name = none := hfind
    simp only [resolve, hnone]
    exact congrArg (fun fs => (_, (⟨_, fs⟩ : Context))) hframes.symm

/-- A name that the open scope does not have is declared as in the frames. -/
theorem declares_of_scopes {s : Scopes} {t : VarTable} (hs : s.WellFormed) (n : String)
    (type : VarType) (span : Span) (hnew : (s.declare t n type span).1.2 = false) :
    (⟨t, s.frames⟩ : Context).Declares (s.declare t n type span).1.1 type
      ⟨(s.declare t n type span).2.1, (s.declare t n type span).2.2.frames⟩ := by
  have hnone : s.find? n s.current = none :=
    Option.isNone_iff_eq_none.mp (Option.isSome_eq_false_iff.mp hnew)
  rw [Scopes.find?_current hs] at hnone
  refine ⟨hnone, span, ?_⟩
  have hframes := Scopes.frames_bind_current n (t.declare n type span).1 hs
  exact congrArg (fun fs => (_, (⟨_, fs⟩ : Context))) hframes.symm

theorem lt_size_of_find? (hc : c.Sound) (h : c.find? name = some v) : v.id < c.vars.size := by
  obtain ⟨_, hget⟩ := find?_spec hc h
  obtain ⟨x, hx, _⟩ := Option.map_eq_some_iff.mp hget
  exact (Array.getElem?_eq_some_iff.mp hx).1

/-- A name that is used stands for a variable of the table behind the use. -/
theorem Resolves.lt_size (h : c.Resolves v c') (hc : c.Sound) : v.id < c'.vars.size := by
  rcases resolves_cases h with ⟨hfind, rfl⟩ | ⟨_, hid, span, rfl⟩
  · exact lt_size_of_find? hc hfind
  · simp [VarTable.declareImplicit, hid]

/-! ## Names that keep their meaning -/

/-- The name is bound in the same frames, to the same variables. -/
def Keeps (name : String) (c c' : Context) : Prop :=
  c'.frames.map (List.lookup name) = c.frames.map (List.lookup name)

namespace Keeps

theorem refl (name : String) (c : Context) : c.Keeps name c := rfl

theorem trans (h : c.Keeps name c₁) (h' : c₁.Keeps name c₂) : c.Keeps name c₂ :=
  Eq.trans h' h

theorem find? (h : c.Keeps name c') : c'.find? name = c.find? name := by
  have hfind (fs : List Frame) : Frame.find? fs name = (fs.map (List.lookup name)).findSome? id := by
    rw [List.findSome?_map]
    rfl
  rw [Context.find?, Context.find?, hfind, hfind, h]

theorem pop (h : c.push.Keeps name c') : c.Keeps name c'.pop := by
  have htail := congrArg List.tail h
  simpa only [Keeps, Context.pop, Context.push, ← List.map_tail, List.tail_cons] using htail

end Keeps

theorem find?_push (c : Context) (name : String) : c.push.find? name = c.find? name := by
  simp [find?, push]

/-- A use of any name changes nothing for a name that stands for something. -/
theorem Resolves.keeps (h : c.Resolves v c') (hfind : c.find? name ≠ none) : c.Keeps name c' := by
  rcases resolves_cases h with ⟨_, rfl⟩ | ⟨hnone, _, _, rfl⟩
  · exact .refl _ _
  · have hne : name ≠ v.name := fun heq => hfind (heq ▸ hnone)
    have hbeq : (name == v.name) = false := beq_false_of_ne hne
    refine bindOuter_induction (P := fun fs gs =>
      gs.map (List.lookup name) = fs.map (List.lookup name)) (v.name, v) rfl ?_ ?_ ?_ c.frames
    · intro f
      simp only [List.map_cons, List.lookup_cons, hbeq]
    · intro f g
      simp only [List.map_cons, List.lookup_cons, hbeq]
    · intro f fs ih
      rw [List.map_cons, ih, List.map_cons]

/-- A declaration of another name changes nothing. -/
theorem Declares.keeps (h : c.Declares v type c') (hne : v.name ≠ name) : c.Keeps name c' := by
  obtain ⟨_, _, _, rfl⟩ := declares_cases h
  have hbeq : (name == v.name) = false := beq_false_of_ne (Ne.symm hne)
  unfold Keeps
  cases c.frames with
  | nil => rfl
  | cons f fs => simp only [Frame.bindInner, List.map_cons, List.lookup_cons, hbeq]

/-- A declared name stands for its variable. -/
theorem Declares.find? (h : c.Declares v type c') (hc : c.Sound) : c'.find? v.name = some v := by
  obtain ⟨_, _, _, rfl⟩ := declares_cases h
  obtain ⟨f, fs, hframes⟩ := List.exists_cons_of_ne_nil hc.frames_ne
  simp [Context.find?, hframes, Frame.bindInner]

/-- If a name stands for a variable, then every use of it is one of that variable. -/
theorem Refers.keeps (h : c.Refers vs c') (hfind : c.find? name = some w) :
    c.Keeps name c' ∧ ∀ v ∈ vs, v.name = name → v = w := by
  induction h with
  | nil => exact ⟨.refl _ _, fun _ hv => absurd hv List.not_mem_nil⟩
  | @cons c c₁ c₂ v vs first rest ih =>
    have hkeeps : c.Keeps name c₁ := first.keeps (by simp [hfind])
    obtain ⟨hrest, hvs⟩ := ih (hkeeps.find?.trans hfind)
    refine ⟨hkeeps.trans hrest, fun u hu hname => ?_⟩
    rcases List.mem_cons.mp hu with rfl | hu
    · exact (first.name_found (hname ▸ hfind)).1
    · exact hvs u hu hname

end Context

end LoopNest
