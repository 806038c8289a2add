import LoopNest.Proofs.Stmt.Relabel

/-!
# Variables of different functions

The scopes of a function are closed behind it, and what they bind is forgotten. The attributes in
front of a function are read in the global scope, and what they bind there stays.

* `VarTable.Implicit`: a variable that nothing declares.
* `Context.Binds`: some scope binds a name to the variable.
* `Context.Run.origin`: a variable that is used was bound before, or it is new.
* `Context.Run.getLast?_frames`: inside a function nothing is bound in the global scope.
* `Program.refs_apart`: two functions share no variable but those of attributes in front of functions.
-/

namespace LoopNest

/-- The reference is to an `int` of its name that nothing declares. -/
def VarTable.Implicit (t : VarTable) (v : VarRef) : Prop :=
  ∃ span, t.get? v.id = some ⟨v.name, .int, span, true⟩

namespace VarTable

variable {t u : VarTable} {v : VarRef}

theorem lt_size_of_name? (h : t.name? v.id = some v.name) : v.id < t.size := by
  obtain ⟨x, hx, _⟩ := Option.map_eq_some_iff.mp h
  exact (Array.getElem?_eq_some_iff.mp hx).1

/-- Behind the old variables there is only the one that was added. -/
theorem eq_of_get?_add {x y : Variable} {id : Nat} (h : (t.add x).2.get? id = some y)
    (hle : t.size ≤ id) : t.size = id ∧ x = y := by
  have hlt : id < (t.add x).2.size := (Array.getElem?_eq_some_iff.mp h).1
  rw [size_add] at hlt
  obtain rfl : t.size = id := Nat.le_antisymm hle (Nat.lt_succ_iff.mp hlt)
  rw [get?_add_self] at h
  exact ⟨rfl, Option.some.inj h⟩

theorem Extends.name? (h : t.Extends u) (hv : t.name? v.id = some v.name) :
    u.name? v.id = some v.name := by
  rw [VarTable.name?, h.get?_eq _ (lt_size_of_name? hv)]
  exact hv

theorem Implicit.name? (h : t.Implicit v) : t.name? v.id = some v.name := by
  obtain ⟨span, h⟩ := h
  rw [VarTable.name?, h]
  rfl

theorem Implicit.mono (h : t.Implicit v) (hext : t.Extends u) : u.Implicit v := by
  have hlt := lt_size_of_name? h.name?
  obtain ⟨span, h⟩ := h
  exact ⟨span, (hext.get?_eq _ hlt).trans h⟩

end VarTable

namespace Context

/-- A scope binds a name to the variable. -/
def Binds (c : Context) (v : VarRef) : Prop := ∃ f ∈ c.frames, ∃ b ∈ f, b.2 = v

variable {c c' : Context} {us ds : List VarRef} {v : VarRef}

theorem not_binds_initial : ¬ initial.Binds v := by
  simp [Binds, initial]

theorem binds_push : c.push.Binds v ↔ c.Binds v := by
  simp [Binds, push]

theorem Binds.of_pop (h : c.pop.Binds v) : c.Binds v := by
  obtain ⟨f, hf, hb⟩ := h
  exact ⟨f, List.mem_of_mem_tail hf, hb⟩

theorem binds_of_find? {name : String} (h : c.find? name = some v) : c.Binds v := by
  obtain ⟨f, hf, hlookup⟩ := List.exists_of_findSome?_eq_some h
  exact ⟨f, hf, (name, v), mem_of_lookup hlookup, rfl⟩

/-- A name without a binding gets a new variable that nothing declares. -/
theorem implicit_of_resolves (h : c.Resolves v c') (hnone : c.find? v.name = none) :
    v.id = c.vars.size ∧ c'.vars.Implicit v := by
  rcases resolves_cases h with ⟨hfind, _⟩ | ⟨_, hid, span, rfl⟩
  · rw [hnone] at hfind
    cases hfind
  · refine ⟨hid, span, ?_⟩
    rw [hid]
    exact VarTable.get?_add_self _ _

/-! ## Where variables come from -/

/-- The variable is new in `c'`: it is one of those that were declared, or nothing declares it. -/
def New (c : Context) (ds : List VarRef) (c' : Context) (v : VarRef) : Prop :=
  c.vars.size ≤ v.id ∧ (v ∈ ds ∨ c'.vars.Implicit v)

theorem New.mono {c₁ c₂ : Context} {ds' : List VarRef} (h : c₁.New ds c₂ v)
    (hsize : c.vars.size ≤ c₁.vars.size) (hds : ds ⊆ ds') (hext : c₂.Extends c') :
    c.New ds' c' v :=
  ⟨Nat.le_trans hsize h.1, h.2.imp (fun hv => hds hv) fun hv => hv.mono hext⟩

namespace Run

/-- Behind the run, names stand for what they did before or for variables of the run. -/
theorem binds (h : Run c us ds c') : ∀ v, c'.Binds v → c.Binds v ∨ v ∈ us ∨ v ∈ ds := by
  induction h with
  | nil c => exact fun _ hv => .inl hv
  | @used c c' v h =>
    rcases resolves_cases h with ⟨_, rfl⟩ | ⟨_, _, _, rfl⟩
    · exact fun _ hw => .inl hw
    · rintro w ⟨f, hf, b, hb, rfl⟩
      rcases mem_bindOuter f hf b hb with rfl | ⟨g, hg, hb⟩
      · exact .inr (.inl List.mem_cons_self)
      · exact .inl ⟨g, hg, b, hb, rfl⟩
  | @declared c c' v type h =>
    obtain ⟨_, _, _, rfl⟩ := declares_cases h
    rintro w ⟨f, hf, b, hb, rfl⟩
    rcases mem_bindInner hf hb with rfl | ⟨g, hg, hb⟩
    · exact .inr (.inr List.mem_cons_self)
    · exact .inl ⟨g, hg, b, hb, rfl⟩
  | append _ _ ih ih' =>
    intro v hv
    rw [List.mem_append, List.mem_append]
    rcases ih' v hv with hv | hv | hv
    · exact (ih v hv).imp_right (Or.imp .inl .inl)
    · exact .inr (.inl (.inr hv))
    · exact .inr (.inr (.inr hv))
  | scope _ ih => exact fun v hv => (ih v hv.of_pop).imp_left binds_push.mp

/-- A variable that is used stood for a name before, or it is new. -/
theorem origin (h : Run c us ds c') : ∀ v ∈ us, c.Binds v ∨ c.New ds c' v := by
  induction h with
  | nil c => exact fun _ hv => absurd hv List.not_mem_nil
  | @used c c' v h =>
    rw [List.forall_mem_singleton]
    cases hfind : c.find? v.name with
    | some w =>
      obtain ⟨rfl, rfl⟩ := h.name_found hfind
      exact .inl (binds_of_find? hfind)
    | none =>
      obtain ⟨hid, himplicit⟩ := implicit_of_resolves h hfind
      exact .inr ⟨Nat.le_of_eq hid.symm, .inr himplicit⟩
  | declared h => exact fun _ hv => absurd hv List.not_mem_nil
  | @append c c₁ c₂ us us' ds ds' first rest ih ih' =>
    have hfirst {v : VarRef} (hv : c.New ds c₁ v) : c.New (ds ++ ds') c₂ v :=
      hv.mono (Nat.le_refl _) (List.subset_append_left _ _) rest.vars_extend
    refine List.forall_mem_append.mpr ⟨fun v hv => (ih v hv).imp_right hfirst, fun v hv => ?_⟩
    rcases ih' v hv with hbinds | hnew
    · rcases first.binds v hbinds with hv | hv | hv
      · exact .inl hv
      · exact (ih v hv).imp_right hfirst
      · exact .inr (hfirst ⟨first.le_declared v hv, .inl hv⟩)
    · have hsize := first.vars_extend.size_le
      exact .inr (hnew.mono hsize (List.subset_append_right _ _) (.refl c₂))
  | scope _ ih => exact fun v hv => (ih v hv).imp_left binds_push.mp

/-- A reference has the name of its variable. -/
theorem name? (h : Run c us ds c') (hc : c.Sound) :
    ∀ v, v ∈ us ∨ v ∈ ds → c'.vars.name? v.id = some v.name := by
  induction h with
  | nil c => simp
  | used h => simpa using h.name?_eq hc
  | declared h => simpa using h.name?_eq
  | append first rest ih ih' =>
    intro v hv
    rw [List.mem_append, List.mem_append] at hv
    rcases hv with (hv | hv) | (hv | hv)
    · exact VarTable.Extends.name? rest.vars_extend (ih hc v (.inl hv))
    · exact ih' (first.sound hc) v (.inl hv)
    · exact VarTable.Extends.name? rest.vars_extend (ih hc v (.inr hv))
    · exact ih' (first.sound hc) v (.inr hv)
  | scope _ ih => exact ih hc.push

/-! ## The global scope -/

theorem getLast?_bindOuter {b : String × VarRef} :
    ∀ {fs : List Frame}, 2 ≤ fs.length → (Frame.bindOuter b fs).getLast? = fs.getLast?
  | [_, _], _ => rfl
  | f :: g :: k :: fs, _ => by
    have hrest : (Frame.bindOuter b (g :: k :: fs)).getLast? = (g :: k :: fs).getLast? :=
      getLast?_bindOuter (by simp)
    rw [Frame.bindOuter, List.getLast?_cons, hrest, ← List.getLast?_cons]

/-- Inside a function, nothing is bound in the global scope. -/
theorem getLast?_frames (h : Run c us ds c') (hlength : 2 ≤ c.frames.length) :
    c'.frames.getLast? = c.frames.getLast? := by
  induction h with
  | nil c => rfl
  | @used c c' v h =>
    rcases resolves_cases h with ⟨_, rfl⟩ | ⟨_, _, _, rfl⟩
    · rfl
    · exact getLast?_bindOuter hlength
  | @declared c c' v type h =>
    obtain ⟨_, _, _, rfl⟩ := declares_cases h
    match c.frames, hlength with
    | f :: g :: fs, _ => simp [Frame.bindInner]
  | append first rest ih ih' =>
    exact (ih' (first.length_frames ▸ hlength)).trans (ih hlength)
  | @scope c c' us ds inside ih =>
    have hpush : 2 ≤ c.push.frames.length := Nat.le_succ_of_le hlength
    have hinside := ih hpush
    have hcount := inside.length_frames
    obtain ⟨f, fs, hframes⟩ := List.exists_cons_of_length_pos (hcount ▸ Nat.zero_lt_of_lt hpush)
    have hne : fs ≠ [] := by
      rintro rfl
      rw [hframes] at hcount
      simp only [push, List.length_cons, List.length_nil] at hcount
      omega
    have hne' : c.frames ≠ [] := List.ne_nil_of_length_pos (Nat.zero_lt_of_lt hlength)
    rw [hframes, push, List.getLast?_cons_of_ne_nil hne, List.getLast?_cons_of_ne_nil hne'] at hinside
    rw [pop, hframes, List.tail_cons, hinside]

end Run

end Context

/-! ## Functions -/

theorem Function.mem_refs {f : Function} {v : VarRef} (h : v ∈ f.refs) :
    v ∈ Attribute.refsAll f.attributes ∨ v ∈ f.body.statements.flatMap Stmt.uses ∨
      v ∈ f.declared := by
  have hbody {s t : Stmt} (hs : s ∈ f.body.statements) (ht : t ∈ s.statements)
      (hv : v ∈ t.ownUses) : v ∈ f.body.statements.flatMap Stmt.uses :=
    List.mem_flatMap.mpr ⟨s, hs, List.mem_flatMap.mpr ⟨t, ht, hv⟩⟩
  rcases List.mem_append.mp h with h | h
  · rcases List.mem_append.mp h with h | h
    · exact .inr (.inr (List.mem_append_left _ h))
    · obtain ⟨s, hs, h⟩ := List.mem_flatMap.mp h
      obtain ⟨t, ht, h⟩ := List.mem_flatMap.mp h
      rcases List.mem_append.mp h with h | h
      · exact .inr (.inl (hbody hs ht (List.mem_append_right _ h)))
      · refine .inr (.inr (List.mem_append_right _ (List.mem_flatMap.mpr ⟨s, hs, ?_⟩)))
        obtain ⟨d, hd, rfl⟩ := List.mem_map.mp h
        exact List.mem_map_of_mem (List.mem_flatMap.mpr ⟨t, ht, hd⟩)
  · rcases List.mem_append.mp h with h | h
    · exact .inl h
    · obtain ⟨s, hs, h⟩ := List.mem_flatMap.mp h
      obtain ⟨t, ht, h⟩ := List.mem_flatMap.mp h
      exact .inr (.inl (hbody hs ht (List.mem_append_left _ h)))

open Context (Run)

/-- A run in a scope of its own in the global scope leaves the bindings there as they are. -/
theorem Context.Run.frames_of_global {c c' : Context} {us ds : List VarRef}
    (h : Run c.push us ds c') (hlength : c.frames.length = 1) : c'.pop.frames = c.frames := by
  obtain ⟨g, hg⟩ := List.length_eq_one_iff.mp hlength
  have hcount := h.length_frames
  have hlast := h.getLast?_frames (by simp [push, hg])
  rw [push, hg] at hcount hlast
  obtain ⟨f, g', hframes⟩ := List.length_eq_two.mp hcount
  rw [hframes] at hlast
  have hlast : g' = g := Option.some.inj hlast
  rw [pop, hframes, hg, hlast, List.tail_cons]

/-- The attributes in front of a function are read first, and the rest in a scope of its own. -/
theorem Function.ReadIn.runs {f : Function} {c c' : Context} (h : f.ReadIn sizes c c') :
    ∃ c₁ c₂ us, Run c (Attribute.refsAll f.attributes) [] c₁ ∧
      f.body.statements.flatMap Stmt.uses ⊆ us ∧ Run c₁.push us f.declared c₂ ∧ c' = c₂.pop := by
  obtain ⟨c₁, c₂, c₃, hmarks, _, hparams, hbody, rfl⟩ := h
  obtain ⟨us, _, hparams⟩ := VarRef.run_of_chain hparams
  obtain ⟨us', hus', hbody⟩ := Stmt.ReadAllIn.run hbody
  exact ⟨c₁, c₃.pop, us ++ us', .of_reads hmarks.2,
    fun v hv => List.mem_append_right _ (hus' hv), hparams.append hbody.scope, rfl⟩

/-- What a function in the global scope does to names: only its attributes leave bindings. -/
structure Function.Separate (c : Context) (f : Function) (c' : Context) : Prop where
  length_frames : c'.frames.length = 1
  sound : c'.Sound
  vars_extend : c.Extends c'
  name? : ∀ v ∈ f.refs, c'.vars.name? v.id = some v.name
  origin : ∀ v ∈ f.refs, c.Binds v ∨ c.New f.declared c' v
  binds : ∀ v, c'.Binds v → c.Binds v ∨ (v ∈ Attribute.refsAll f.attributes ∧ c.New [] c' v)

theorem Function.ReadIn.separate {f : Function} {c c' : Context} (h : f.ReadIn sizes c c')
    (hc : c.Sound) (hlength : c.frames.length = 1) : f.Separate c c' := by
  obtain ⟨c₁, c₂, us, hmarks, hus, hinside, rfl⟩ := h.runs
  have hrun : Run c (Attribute.refsAll f.attributes ++ us) f.declared c₂.pop :=
    hmarks.append hinside.scope
  have hmem {v : VarRef} (hv : v ∈ f.refs) :
      v ∈ Attribute.refsAll f.attributes ++ us ∨ v ∈ f.declared := by
    rcases Function.mem_refs hv with hv | hv | hv
    · exact .inl (List.mem_append_left _ hv)
    · exact .inl (List.mem_append_right _ (hus hv))
    · exact .inr hv
  refine ⟨hrun.length_frames.trans hlength, hrun.sound hc, hrun.vars_extend,
    fun v hv => hrun.name? hc v (hmem hv), fun v hv => ?_, fun v hv => ?_⟩
  · rcases hmem hv with hv | hv
    · exact hrun.origin v hv
    · exact .inr ⟨hrun.le_declared v hv, .inl hv⟩
  · have hglobal := hinside.frames_of_global (hmarks.length_frames.trans hlength)
    have hbinds : c₁.Binds v := by rwa [Context.Binds, hglobal] at hv
    rcases hmarks.binds v hbinds with hold | hmark | hnone
    · exact .inl hold
    · exact (hmarks.origin v hmark).imp_right fun hnew =>
        ⟨hmark, hnew.mono (Nat.le_refl _) (List.Subset.refl _) hinside.vars_extend⟩
    · exact absurd hnone List.not_mem_nil

/-! ## Programs -/

section

variable {c c' : Context} {fs : List Function}

/-- The functions declare variables in the order of their declarations. -/
theorem Function.run_of_chain (h : c.Chain (Function.ReadIn sizes) fs c') :
    ∃ us, Context.Run c us (fs.flatMap Function.declared) c' := by
  induction h with
  | nil c => exact ⟨[], .nil c⟩
  | cons first _ ih =>
    obtain ⟨_, _, _, hmarks, _, hinside, rfl⟩ := first.runs
    obtain ⟨_, hrest⟩ := ih
    exact ⟨_, (hmarks.append hinside.scope).append hrest⟩

theorem Function.separate_of_chain (h : c.Chain (Function.ReadIn sizes) fs c') (hc : c.Sound)
    (hlength : c.frames.length = 1) : c.Chain (fun c f c' => f.Separate c c') fs c' := by
  induction h with
  | nil c => exact .nil c
  | cons first _ ih =>
    have hfirst := first.separate hc hlength
    exact .cons hfirst (ih hfirst.sound hfirst.length_frames)

variable (h : c.Chain (fun c f c' => f.Separate c c') fs c')
include h

theorem Function.name?_of_separate : ∀ f ∈ fs, ∀ v ∈ f.refs, c'.vars.name? v.id = some v.name := by
  induction h with
  | nil => exact fun _ hf => absurd hf List.not_mem_nil
  | cons first rest ih =>
    refine List.forall_mem_cons.mpr ⟨fun v hv => ?_, ih⟩
    exact VarTable.Extends.name? (rest.extends Separate.vars_extend) (first.name? v hv)

/-- A variable of some function was there before, or it is new. -/
theorem Function.origin_of_separate : ∀ f ∈ fs, ∀ v ∈ f.refs, c.Binds v ∨ c.New f.declared c' v := by
  induction h with
  | nil => exact fun _ hf => absurd hf List.not_mem_nil
  | @cons c c₁ c₂ f fs first rest ih =>
    have hext := rest.extends Separate.vars_extend
    refine List.forall_mem_cons.mpr ⟨fun v hv => (first.origin v hv).imp_right fun hnew =>
      hnew.mono (Nat.le_refl _) (List.Subset.refl _) hext, fun g hg v hv => ?_⟩
    have hsize := first.vars_extend.size_le
    rcases ih g hg v hv with hold | hnew
    · exact (first.binds v hold).imp_right fun hmark =>
        hmark.2.mono (Nat.le_refl _) (List.nil_subset _) hext
    · exact .inr (hnew.mono hsize (List.Subset.refl _) (.refl c₂))

/-- If two functions share a variable, then it was there before, or it is one of attributes up to the
first of the two. -/
theorem Function.shared_of_separate {i j : Nat} {f g : Function} {v w : VarRef} (hij : i < j)
    (hf : fs[i]? = some f) (hg : fs[j]? = some g) (hv : v ∈ f.refs) (hw : w ∈ g.refs)
    (hid : v.id = w.id) : c.Binds w ∨
      (c'.vars.Implicit w ∧ ∃ k ≤ i, ∃ e, fs[k]? = some e ∧ w ∈ Attribute.refsAll e.attributes) := by
  induction h generalizing i j with
  | nil => cases hf
  | @cons c c₁ c₂ e fs first rest ih =>
    have hext := rest.extends Separate.vars_extend
    -- what the first function leaves behind was there before or stands in its attributes
    have hfirst (hbinds : c₁.Binds w) : c.Binds w ∨ (c₂.vars.Implicit w ∧
        ∃ k ≤ i, ∃ e', (e :: fs)[k]? = some e' ∧ w ∈ Attribute.refsAll e'.attributes) := by
      refine (first.binds w hbinds).imp_right fun ⟨hmark, hnew⟩ => ⟨?_, 0, Nat.zero_le i, e, rfl, hmark⟩
      exact (hnew.2.resolve_left List.not_mem_nil).mono hext
    obtain ⟨j, rfl⟩ := Nat.exists_eq_succ_of_ne_zero (Nat.ne_zero_of_lt hij)
    rw [List.getElem?_cons_succ] at hg
    cases i with
    | zero =>
      obtain rfl : e = f := Option.some.inj hf
      have hlt := VarTable.lt_size_of_name? (first.name? v hv)
      rcases origin_of_separate rest g (List.mem_of_getElem? hg) w hw with hold | hnew
      · exact hfirst hold
      · exact absurd hnew.1 (by omega)
    | succ i =>
      rw [List.getElem?_cons_succ] at hf
      rcases ih (Nat.lt_of_succ_lt_succ hij) hf hg with hold | ⟨himplicit, k, hk, e', he', hmark⟩
      · exact hfirst hold
      · exact .inr ⟨himplicit, k + 1, Nat.succ_le_succ hk, e', he', hmark⟩

end

/-- **Functions share no variables of their own.** A variable of a function is declared in it, or it
is an `int` that nothing declares. If two functions have a variable in common, in attributes,
parameters or bodies, then it is one of the latter, and it occurs in the attributes in front of the
first of the two functions or of one before it. -/
theorem Program.refs_apart {source : String} {p : Program} (hp : Program.read source = .ok p) :
    (∀ f ∈ p.functions, ∀ v ∈ f.refs, v ∈ f.declared ∨ p.vars.Implicit v) ∧
    ∀ (i j : Nat) (f g : Function), i < j → p.functions[i]? = some f → p.functions[j]? = some g →
      ∀ v ∈ f.refs, ∀ w ∈ g.refs, v.id = w.id →
        v = w ∧ p.vars.Implicit v ∧ ∃ k ≤ i, ∃ e, p.functions[k]? = some e ∧
          v ∈ Attribute.refsAll e.attributes := by
  obtain ⟨c, hchain, hvars⟩ := readIn_of_read hp
  have hseparate := Function.separate_of_chain hchain .initial rfl
  rw [← hvars]
  refine ⟨fun f hf v hv => ?_, fun i j f g hij hf hg v hv w hw hid => ?_⟩
  · rcases Function.origin_of_separate hseparate f hf v hv with hbinds | hnew
    · exact absurd hbinds Context.not_binds_initial
    · exact hnew.2
  · have hname := Function.name?_of_separate hseparate
    have hsame : v = w := by
      have hv := hname f (List.mem_of_getElem? hf) v hv
      have hw := hname g (List.mem_of_getElem? hg) w hw
      rw [hid, hw] at hv
      cases v
      cases w
      simp_all
    subst hsame
    rcases Function.shared_of_separate hseparate hij hf hg hv hw rfl with hbinds | hshared
    · exact absurd hbinds Context.not_binds_initial
    · exact ⟨rfl, hshared⟩

/-- A name that two functions use and none declares, in a header and in an attribute inside. -/
theorem Program.refs_apart_undeclared :
    ∃ p, Program.read "@kernel void f(int n) { for (int i = n; i < N; ++i) ; }
        void g(int n) { @hint(N) n = 1; }" = .ok p ∧
      ∃ f g v w, p.functions[0]? = some f ∧ p.functions[1]? = some g ∧ v ∈ f.refs ∧ w ∈ g.refs ∧
        v.name = "N" ∧ w.name = "N" ∧ v.id ≠ w.id := by
  refine (exists_of_read (P := fun p =>
    p.functions[0]?.any fun f => p.functions[1]?.any fun g =>
      (Attribute.refsAll f.attributes).isEmpty && f.refs.any (fun v => v.name == "N") &&
        g.refs.any (fun w => w.name == "N")) ?_).imp fun p h => ⟨h.1, ?_⟩
  · decide +kernel
  · obtain ⟨hp, h⟩ := h
    obtain ⟨f, hf, h⟩ := (Option.any_eq_true _ _).mp h
    obtain ⟨g, hg, h⟩ := (Option.any_eq_true _ _).mp h
    simp only [Bool.and_eq_true, List.any_eq_true, beq_iff_eq, List.isEmpty_iff] at h
    obtain ⟨⟨hmarks, v, hv, hvn⟩, w, hw, hwn⟩ := h
    refine ⟨f, g, v, w, hf, hg, hv, hw, hvn, hwn, fun hid => ?_⟩
    obtain ⟨_, _, k, hk, e, he, hmark⟩ :=
      (refs_apart hp).2 0 1 f g Nat.zero_lt_one hf hg v hv w hw hid
    obtain rfl := Nat.le_zero.mp hk
    obtain rfl : f = e := Option.some.inj (hf.symm.trans he)
    rw [hmarks] at hmark
    cases hmark

/-- A name in an attribute in front of a function is one variable with the same name in the next
function. -/
theorem Program.refs_apart_attribute :
    ∃ p, Program.read "@tile(N) void f() {} void g() { N; }" = .ok p ∧
      ∃ f g v w, p.functions[0]? = some f ∧ p.functions[1]? = some g ∧ v ∈ f.refs ∧ w ∈ g.refs ∧
        v.name = "N" ∧ w.name = "N" ∧ v.id = w.id := by
  refine (exists_of_read (P := fun p =>
    p.functions[0]?.any fun f => p.functions[1]?.any fun g => f.refs.any fun v =>
      g.refs.any fun w => v.name == "N" && w.name == "N" && v.id == w.id) ?_).imp
        fun p h => ⟨h.1, ?_⟩
  · decide +kernel
  · obtain ⟨f, hf, h⟩ := (Option.any_eq_true _ _).mp h.2
    obtain ⟨g, hg, h⟩ := (Option.any_eq_true _ _).mp h
    simp only [Bool.and_eq_true, List.any_eq_true, beq_iff_eq] at h
    obtain ⟨v, hv, w, hw, ⟨hvn, hwn⟩, hid⟩ := h
    exact ⟨f, g, v, w, hf, hg, hv, hw, hvn, hwn, hid⟩

end LoopNest
