import Mathlib.Data.Set.Function
import LoopNest.Proofs.Grammar.AcceptProgram
import LoopNest.Proofs.Token.Floats

/-!
# Programs that are read back

The text of a program is read as the same program, unless the text leaves out something that makes
a difference.

* `Program.Legible`: every word of the text is read as what it stands for.
* `Program.Printable`: the text leaves nothing out that makes a difference.
* `Program.Renumbers`: a program is another one but for spans and numbers of variables.
* `Program.read_text`: what is read from the text of a program is the program.
-/

namespace LoopNest

/-! ## What has to be so for a program to be read back -/

/-- A literal is not an infinite number. -/
def Expr.FiniteFloat : Expr → Prop
  | literal _ (.float x) => x.isFinite = true
  | _ => True

namespace Expr

instance : DecidablePred SignApart
  | unaryBefore _ .negate x => inferInstanceAs (Decidable (x.isSigned = false))
  | unaryBefore _ .increment _ | unaryBefore _ .decrement _ | unaryBefore _ .not _ | var _ _
  | literal _ _ | unaryBehind _ _ _ | binary _ _ _ _ | parentheses _ _ | subscript _ _ _
  | call _ _ _ => inferInstanceAs (Decidable True)

instance : DecidablePred FiniteFloat
  | literal _ (.float x) => inferInstanceAs (Decidable (x.isFinite = true))
  | literal _ (.int _) | literal _ (.bool _) | unaryBefore _ _ _ | var _ _ | unaryBehind _ _ _
  | binary _ _ _ _ | parentheses _ _ | subscript _ _ _ | call _ _ _ =>
    inferInstanceAs (Decidable True)

end Expr

/-- Every word of the text is read as what it stands for: no minus runs into another one, no number
is infinite, and no expression is read as the arguments of an attribute in front of it. -/
structure Program.Legible (p : Program) : Prop where
  signs : ∀ x ∈ p.expressions, ∀ y ∈ x.nodes, y.SignApart
  floats : ∀ x ∈ p.expressions, ∀ y ∈ x.nodes, y.FiniteFloat
  arguments : ∀ f ∈ p.functions, ∀ s ∈ f.body.allStatements, s.takesArguments = false

/-- The text leaves nothing out that makes a difference either: no variable gets the stars of
another one, and no attribute that mentions a variable gets into the header of its loop. -/
structure Program.Printable (p : Program) : Prop extends p.Legible where
  stars : ∀ f ∈ p.functions, ∀ s ∈ f.body.allStatements, s.spreadsStars p.vars = false
  mentions : ∀ f ∈ p.functions, ∀ s ∈ f.body.allStatements, s.movesMentions = false

instance : DecidablePred Program.Legible := fun _ =>
  decidable_of_iff (_ ∧ _ ∧ _) ⟨fun ⟨h₁, h₂, h₃⟩ => ⟨h₁, h₂, h₃⟩, fun ⟨h₁, h₂, h₃⟩ => ⟨h₁, h₂, h₃⟩⟩

instance : DecidablePred Program.Printable := fun _ =>
  decidable_of_iff (_ ∧ _ ∧ _) ⟨fun ⟨h₁, h₂, h₃⟩ => ⟨h₁, h₂, h₃⟩, fun ⟨h₁, h₂, h₃⟩ => ⟨h₁, h₂, h₃⟩⟩

namespace Expr

theorem FiniteFloat.readsBack : ∀ {x : Expr}, x.FiniteFloat → x.Grammatical → x.FloatReadsBack
  | literal _ (.float _), hfinite, ⟨_, rfl⟩ => ⟨hfinite, Grammar.floatLiteral_text hfinite⟩
  | literal _ (.int _), _, _ | literal _ (.bool _), _, _ | var _ _, _, _ | unaryBefore _ _ _, _, _
  | unaryBehind _ _ _, _, _ | binary _ _ _ _, _, _ | parentheses _ _, _, _ | subscript _ _ _, _, _
  | call _ _ _, _, _ => trivial

end Expr

theorem Program.grammatical_of_read {source : String} {p : Program}
    (hp : Program.read source = .ok p) : ∀ x ∈ p.expressions, x.Grammatical := by
  intro x hx
  obtain ⟨f, hf, hx⟩ := List.mem_flatMap.mp hx
  rcases List.mem_append.mp hx with hx | hx
  · obtain ⟨_, c, c', _, c₁, c₂, c₃, hmarks, _⟩ := exists_readIn hp hf
    exact hmarks.2.1 x hx
  · obtain ⟨s, hs, hx⟩ := List.mem_flatMap.mp hx
    obtain ⟨t, ht, hx⟩ := List.mem_flatMap.mp hx
    obtain ⟨_, _, _, _, hread⟩ := isRead_of_read hp hf (Block.mem_allStatements.mpr ⟨s, hs, ht⟩)
    exact hread.grammatical x hx

theorem Program.Legible.apart {source : String} {p : Program} (h : p.Legible)
    (hp : Program.read source = .ok p) : ∀ x ∈ p.expressions, x.Apart :=
  fun x hx y hy => ⟨h.signs x hx y hy,
    (h.floats x hx y hy).readsBack ((grammatical_of_read hp x hx).nodes y hy)⟩

theorem Program.Legible.printable {source : String} {p : Program} (h : p.Legible)
    (hp : Program.read source = .ok p) {exact : Prop} (hexact : exact → p.Printable) :
    ∀ f ∈ p.functions, f.Printable exact p.vars := by
  intro f hf
  have hapart : ∀ x ∈ f.expressions, x.Apart :=
    fun x hx => h.apart hp x (List.mem_flatMap.mpr ⟨f, hf, hx⟩)
  rw [Function.expressions, List.forall_mem_append] at hapart
  refine ⟨hapart.1, fun s hs t ht => ?_⟩
  have hbelow := Block.mem_allStatements.mpr ⟨s, hs, ht⟩
  have hinside : ∀ x ∈ t.attributes.flatMap Attribute.args ++ t.values, x.Apart :=
    fun x hx => hapart.2 x (List.mem_flatMap.mpr ⟨s, hs, List.mem_flatMap.mpr ⟨t, ht, hx⟩⟩)
  rw [List.forall_mem_append] at hinside
  exact ⟨hinside.1, hinside.2, h.arguments f hf t hbelow,
    fun he => (hexact he).stars f hf t hbelow, fun he => (hexact he).mentions f hf t hbelow⟩

/-! ## The variables of a program -/

def Program.refs (p : Program) : List VarRef := p.functions.flatMap Function.refs

/-- The numbers of the variables that occur in the program. -/
def Program.ids (p : Program) : Set Nat := {i | ∃ v ∈ p.refs, v.id = i}

theorem Function.refs_relabel_all (σ : Nat → Nat) (f : Function) :
    (f.relabel (.all σ)).refs = f.refs.map (VarRef.relabel σ) := by
  rw [refs, plainRefs_relabel, markRefs_relabel, refs, List.map_append]
  rfl

theorem Function.refs_relabelled (σ : Nat → Nat) (fs : List Function) :
    (fs.map (relabel (.all σ))).flatMap refs = (fs.flatMap refs).map (VarRef.relabel σ) := by
  rw [List.flatMap_map, List.map_flatMap]
  exact List.flatMap_congr fun f _ => f.refs_relabel_all σ

/-! ## Other numbers -/

/-- The program `p'` is `p` but for spans, with the number `σ i` for the variable of number `i`.
Different variables have different numbers, and all keep their names and types. -/
structure Program.Renumbers (σ : Nat → Nat) (p p' : Program) : Prop where
  functions : p'.functions.map (Function.relabel (.all id)) =
    p.functions.map (Function.relabel (.all σ))
  ids : Set.BijOn σ p.ids p'.ids
  name : ∀ i ∈ p.ids, p'.vars.name? (σ i) = p.vars.name? i
  type : ∀ i ∈ p.ids, p'.vars.type? (σ i) = p.vars.type? i

theorem Program.Renumbers.text {σ : Nat → Nat} {p p' : Program} (h : Renumbers σ p p') :
    p'.text = p.text := by
  have hlayout (τ : Nat → Nat) (vars : VarTable) (fs : List Function)
      (htype : ∀ v ∈ fs.flatMap Function.refs, v.KeepsType (.all τ) vars p'.vars) :
      (fs.map (Function.relabel (.all τ))).map (Function.layout p'.vars) =
        fs.map (Function.layout vars) := by
    rw [List.map_map]
    refine List.map_congr_left fun f hf => ?_
    have hkeeps : ∀ v ∈ f.declared, v.KeepsType (.all τ) vars p'.vars :=
      fun v hv => htype v (List.mem_flatMap.mpr ⟨f, hf, f.declared_subset hv⟩)
    refine Function.layout_relabel _ (fun v hv => hkeeps v (List.mem_append_left _ hv)) ?_
    exact fun s hs v hv =>
      hkeeps v (List.mem_append_right _ (List.mem_flatMap.mpr ⟨s, hs, hv⟩))
  have hleft := hlayout id p'.vars p'.functions fun v _ => rfl
  have hright := hlayout σ p.vars p.functions fun v hv => h.type v.id ⟨v, hv, rfl⟩
  rw [h.functions] at hleft
  rw [Program.text, Program.text, layout, layout, ← hleft, ← hright]

/-! ## Programs that are alike -/

open Classical in
/-- The number that corresponds to a number, or else one from `n` on. -/
noncomputable def Pairing.number (K : Pairing) (n i : Nat) : Nat :=
  if hi : ∃ j, K.pairs i j then hi.choose else n + i

namespace Program.Alike

variable {K : Pairing} {p p' : Program}

theorem number_eq {exact : Prop} (h : p.Alike exact K p') (n : Nat) {i j : Nat}
    (hij : K.pairs i j) : K.number n i = j := by
  have hi : ∃ j, K.pairs i j := ⟨j, hij⟩
  exact (dif_pos hi).trans ((h.unique _ _ _ _ hi.choose_spec hij).mp rfl)

/-- Numbers that correspond to nothing get numbers that no variable has. -/
theorem number_injective {exact : Prop} (h : p.Alike exact K p') :
    Function.Injective (K.number p'.vars.size) := by
  intro i i' heq
  by_cases hi : ∃ j, K.pairs i j <;> by_cases hi' : ∃ j, K.pairs i' j
  · obtain ⟨j, hij⟩ := hi
    obtain ⟨j', hij'⟩ := hi'
    rw [h.number_eq _ hij, h.number_eq _ hij'] at heq
    exact (h.unique i j i' j' hij hij').mpr heq
  · obtain ⟨j, hij⟩ := hi
    rw [h.number_eq _ hij, Pairing.number, dif_neg hi'] at heq
    have hlt := (h.lt_size i j hij).2
    omega
  · obtain ⟨j, hij⟩ := hi'
    rw [h.number_eq _ hij, Pairing.number, dif_neg hi] at heq
    have hlt := (h.lt_size i' j hij).2
    omega
  · rw [Pairing.number, Pairing.number, dif_neg hi, dif_neg hi'] at heq
    exact Nat.add_left_cancel heq

/-- Numberings that agree on corresponding variables make the functions the same. -/
theorem relabel_eq {exact : Prop} (h : p.Alike exact K p') {σ τ : Numbering}
    (hagree : K.Agree exact σ τ) :
    p.functions.map (Function.relabel σ) = p'.functions.map (Function.relabel τ) := by
  have hall := h.functions
  generalize p.functions = fs at hall
  generalize p'.functions = fs' at hall
  induction hall with
  | nil => rfl
  | cons first _ ih =>
    rw [List.map_cons, List.map_cons, ih]
    exact congrArg (· :: _) (first.same σ τ hagree)

theorem refs_eq (h : p.Alike True K p') {σ τ : Nat → Nat}
    (hagree : ∀ i j, K.pairs i j → σ i = τ j) :
    p.refs.map (VarRef.relabel σ) = p'.refs.map (VarRef.relabel τ) := by
  have hfunctions := h.relabel_eq ⟨hagree, .inl ⟨trivial, hagree⟩⟩ (σ := .all σ) (τ := .all τ)
  rw [refs, refs, ← Function.refs_relabelled, ← Function.refs_relabelled, hfunctions]

/-- Every variable that occurs corresponds to one: else it could have a number of its own. -/
theorem exists_pair (h : p.Alike True K p') {i : Nat} (hi : i ∈ p.ids) : ∃ j, K.pairs i j := by
  classical
  obtain ⟨v, hv, rfl⟩ := hi
  by_contra hnone
  have hrefs := h.refs_eq (σ := fun i => if ∃ j, K.pairs i j then 0 else 1) (τ := fun _ => 0)
    fun i j hij => if_pos ⟨j, hij⟩
  have hmem := hrefs ▸ List.mem_map_of_mem hv
  obtain ⟨w, _, hw⟩ := List.mem_map.mp hmem
  have hid := congrArg VarRef.id hw
  rw [VarRef.relabel, VarRef.relabel, if_neg hnone] at hid
  cases hid

theorem exists_renumbers (h : p.Alike True K p') : ∃ σ, Renumbers σ p p' := by
  have hσ (i j : Nat) (hij : K.pairs i j) : K.number 0 i = j := h.number_eq 0 hij
  have hrefs := h.refs_eq hσ (τ := id)
  refine ⟨K.number 0, (h.relabel_eq ⟨hσ, .inl ⟨trivial, hσ⟩⟩).symm, ⟨?_, ?_, ?_⟩, ?_, ?_⟩
  · rintro i ⟨v, hv, rfl⟩
    obtain ⟨w, hw, heq⟩ := List.mem_map.mp (hrefs ▸ List.mem_map_of_mem hv)
    exact ⟨w, hw, congrArg VarRef.id heq⟩
  · intro i hi i' hi' heq
    obtain ⟨j, hij⟩ := h.exists_pair hi
    obtain ⟨j', hij'⟩ := h.exists_pair hi'
    rw [hσ i j hij, hσ i' j' hij'] at heq
    exact (h.unique i j i' j' hij hij').mpr heq
  · rintro j ⟨w, hw, rfl⟩
    obtain ⟨v, hv, heq⟩ := List.mem_map.mp (hrefs.symm ▸ List.mem_map_of_mem hw)
    exact ⟨v.id, ⟨v, hv, rfl⟩, congrArg VarRef.id heq⟩
  · intro i hi
    obtain ⟨j, hij⟩ := h.exists_pair hi
    rw [hσ i j hij]
    exact (h.named i j hij).symm
  · intro i hi
    obtain ⟨j, hij⟩ := h.exists_pair hi
    rw [hσ i j hij]
    exact (h.typed i j (h.all_typed trivial i j hij)).2.symm

end Program.Alike

/-! ## The round trip -/

/-- **Programs are read back from their texts.** If the text of a program that was read leaves
nothing out that makes a difference, then it is read as the same program: only spans and the numbers
of variables are others. The text of what is read is the same text again. -/
theorem Program.read_text {source : String} {p : Program} (hp : Program.read source = .ok p)
    (h : p.Printable) :
    ∃ p' σ, Program.read p.text = .ok p' ∧ Renumbers σ p p' ∧ p'.text = p.text := by
  obtain ⟨p', K, hread, halike⟩ :=
    exists_alike hp (h.toLegible.printable hp fun _ : True => h) (h.toLegible.apart hp)
  obtain ⟨σ, hσ⟩ := halike.exists_renumbers
  exact ⟨p', σ, hread, hσ, hσ.text⟩

/-- Attributes in front of a loop and in its header, an array whose size is mentioned nowhere else,
an `if` with both branches in another one, and operators that need their parentheses. -/
theorem Program.read_text_nested :
    ∃ p, Program.read "@kernel float *f(int n, float *a) {
        @tile(16) for (int i = 0; i < n; ++i; @outer @dim(n, N)) {
          int x[M]; float b, *y; @hint b = -(-a[i]) * 1.5e3;
          if (b) if (!y[0]) N += g(x, N) - 1; else { return; } } }
        void g() { ++N; }" = .ok p ∧ p.Printable ∧
      ∃ p' σ, Program.read p.text = .ok p' ∧ Renumbers σ p p' ∧ p'.text = p.text := by
  refine (exists_of_read (P := fun p => decide p.Printable) ?_).imp fun p h =>
    ⟨h.1, of_decide_eq_true h.2, read_text h.1 (of_decide_eq_true h.2)⟩
  decide +kernel

end LoopNest
