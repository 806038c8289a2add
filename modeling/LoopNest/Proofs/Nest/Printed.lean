import LoopNest.Proofs.Grammar.RoundTrip
import LoopNest.Proofs.Nest.Relabel

/-!
# The check of the text of a program

A check finds the same in a program and in what is read from the text of the program, but for
places.

* `Program.Alike.check_agrees`: the reports on two programs that are alike say the same.
* `Report.ofSource_text`: so do the reports on a source text and on the text of its program.
-/

namespace LoopNest

/-! ## The first variables of declarations -/

theorem Stmt.firsts_relabel (σ : Numbering) (s : Stmt) :
    (s.relabel σ).firsts = s.firsts.map (VarRef.relabel σ.vars) := by
  rw [firsts, firsts, statements_relabel, List.flatMap_map, List.map_flatMap]
  refine List.flatMap_congr fun t _ => ?_
  rw [declarators?_relabel]
  cases t.declarators? with
  | none => rfl
  | some ds =>
    simp only [Option.map_some, Option.getD_some, ← List.map_take, List.map_map]
    rfl

/-- The first variable of every declaration in a function. -/
def Function.firsts (f : Function) : List VarRef := f.body.statements.flatMap Stmt.firsts

theorem Function.firsts_relabelled (σ : Numbering) (fs : List Function) :
    (fs.map (relabel σ)).flatMap firsts = (fs.flatMap firsts).map (VarRef.relabel σ.vars) := by
  rw [List.flatMap_map, List.map_flatMap]
  refine List.flatMap_congr fun f _ => ?_
  rw [firsts, relabel, Block.relabel, List.flatMap_map, firsts, List.map_flatMap]
  exact List.flatMap_congr fun s _ => s.firsts_relabel σ

/-- The variable for the index does not change the types of the others. -/
theorem VarTable.type?_declareImplicit {vars : VarTable} {id : Nat} (h : id < vars.size)
    (name : String) (span : Span) :
    (vars.declareImplicit name span).2.type? id = vars.type? id := by
  rw [type?, type?, declareImplicit, get?_add_of_lt _ h]

/-! ## Programs that are alike -/

namespace Program.Alike

variable {exact : Prop} {K : Pairing} {p p' : Program}

theorem typed_firsts (h : p.Alike exact K p') :
    ∀ v ∈ p'.functions.flatMap Function.firsts, ∃ i, K.typed i v.id := by
  have hall := h.functions
  generalize p.functions = fs at hall
  generalize p'.functions = fs' at hall
  induction hall with
  | nil => exact fun _ hv => absurd hv List.not_mem_nil
  | cons first _ ih =>
    rw [List.flatMap_cons, List.forall_mem_append]
    refine ⟨fun v hv => ?_, ih⟩
    obtain ⟨s, hs, hv⟩ := List.mem_flatMap.mp hv
    exact first.firsts s hs v hv

/-- The numbering of the first program that agrees with the numbers of the second one. Variables in
attributes make no difference to a check. -/
noncomputable def numbering (K : Pairing) (p' : Program) : Numbering :=
  .plain (K.number p'.vars.size)

theorem relabel_numbering (h : p.Alike exact K p') :
    p.functions.map (Function.relabel (numbering K p')) =
      p'.functions.map (Function.relabel (.plain id)) :=
  h.relabel_eq ⟨fun _ _ hij => h.number_eq _ hij, .inr fun _ _ => rfl⟩

theorem type?_first (h : p.Alike exact K p') {v : VarRef}
    (hv : v ∈ p.functions.flatMap Function.firsts) :
    ∃ j, K.pairs v.id j ∧ p.vars.type? v.id = p'.vars.type? j := by
  have hfirsts : (p.functions.flatMap Function.firsts).map (VarRef.relabel (K.number p'.vars.size)) =
      (p'.functions.flatMap Function.firsts).map (VarRef.relabel id) := by
    have hmap := congrArg (List.flatMap Function.firsts) h.relabel_numbering
    rwa [Function.firsts_relabelled, Function.firsts_relabelled] at hmap
  obtain ⟨w, hw, heq⟩ := List.mem_map.mp (hfirsts ▸ List.mem_map_of_mem hv)
  obtain ⟨i, htyped⟩ := h.typed_firsts w hw
  obtain ⟨hpairs, htype⟩ := h.typed i w.id htyped
  have hid : K.number p'.vars.size i = K.number p'.vars.size v.id :=
    (h.number_eq _ hpairs).trans (congrArg VarRef.id heq)
  obtain rfl : i = v.id := h.number_injective hid
  exact ⟨w.id, hpairs, htype⟩

/-- A check finds the same in programs that are alike, also with variables of their own behind the
others. -/
theorem shapes_classify_eq (h : p.Alike exact K p') {vars vars' : VarTable}
    (hvars : ∀ id < p.vars.size, vars.type? id = p.vars.type? id)
    (hvars' : ∀ id < p'.vars.size, vars'.type? id = p'.vars.type? id) (config : CheckConfig) :
    (({ p' with vars := vars' } : Program).classify config).events.map Event.shape =
      (({ p with vars } : Program).classify config).events.map Event.shape := by
  have hkeeps : ∀ f ∈ p.functions, ∀ s ∈ f.body.statements,
      s.KeepsFirsts (numbering K p') vars vars' := by
    intro f hf s hs v hv
    have hmem : v ∈ p.functions.flatMap Function.firsts :=
      List.mem_flatMap.mpr ⟨f, hf, List.mem_flatMap.mpr ⟨s, hs, hv⟩⟩
    obtain ⟨j, hpairs, htype⟩ := h.type?_first hmem
    obtain ⟨hi, hj⟩ := h.lt_size _ _ hpairs
    have hnumber : (numbering K p').vars v.id = j := h.number_eq _ hpairs
    rw [VarRef.KeepsType, hnumber, hvars _ hi, hvars' _ hj, htype]
  have hleft :=
    shapes_classify (numbering K p') vars' h.number_injective { p with vars } config hkeeps
  have hright := shapes_classify (.plain id) vars' Function.injective_id { p' with vars := vars' }
    config fun _ _ _ _ _ _ => rfl
  have hfunctions : ({ p with vars } : Program).relabel (numbering K p') vars' =
      ({ p' with vars := vars' } : Program).relabel (.plain id) vars' :=
    congrArg (fun fs => Program.mk fs vars' .none) h.relabel_numbering
  rw [hfunctions] at hleft
  exact hright.symm.trans hleft

/-- Reports on programs that are alike say the same. -/
theorem check_agrees (h : p.Alike exact K p') (config : CheckConfig) :
    (p'.check config).1.Agrees (p.check config).1 :=
  Classification.report_agrees (h.shapes_classify_eq
    (fun _ hid => VarTable.type?_declareImplicit hid config.flatIndex .none)
    (fun _ hid => VarTable.type?_declareImplicit hid config.flatIndex .none) config) config rfl

end Program.Alike

/-! ## Texts -/

/-- **The check of the text of a program.** If every word of the text of a program is read as what
it stands for, then the text has a report, which says the same as the report on the source of the
program, but for places: the text may leave out what makes no difference to a check. -/
theorem Report.ofSource_text {source : String} {p : Program} (hp : Program.read source = .ok p)
    (h : p.Legible) (config : CheckConfig) :
    ∃ r r', ofSource source config = .ok r ∧ ofSource p.text config = .ok r' ∧ r'.Agrees r := by
  obtain ⟨p', K, hread, halike⟩ :=
    Program.exists_alike hp (h.printable hp False.elim) (h.apart hp)
  refine ⟨(p.check config).1, (p'.check config).1, ?_, ?_, halike.check_agrees config⟩
  · rw [ofSource, hp]
    rfl
  · rw [ofSource, hread]
    rfl

/-- The text makes a pointer of `y`, and moves the use of `N` into the header of its loop. -/
theorem Report.ofSource_text_nested :
    ∃ source p, Program.read source = .ok p ∧
      (p.Legible ∧ ¬ p.Printable ∧ (p.check {}).1.loops.length = 2) ∧
      ∃ r r', ofSource source {} = .ok r ∧ ofSource p.text {} = .ok r' ∧ r'.Agrees r := by
  refine ⟨"@kernel void k(int n, float *a) { float *x, y;
      @tile(N) for (int i = 0; i < n; i += 4; @outer(0)) {
        @inner for (int j = i; j <= -(-i) + 3; ++j) a[j] = x[j] * -y + 1.5; } }", ?_⟩
  refine (Program.exists_of_read (P := fun p =>
    decide (p.Legible ∧ ¬ p.Printable ∧ (p.check {}).1.loops.length = 2)) ?_).imp fun p h =>
      ⟨h.1, of_decide_eq_true h.2, ofSource_text h.1 (of_decide_eq_true h.2).1 {}⟩
  decide +kernel

/-- An attribute with an empty list of arguments loses it in the text, and gets the parentheses
behind it instead. What is left there is no statement. -/
theorem Report.ofSource_text_error :
    ∃ p, Program.read "void f(int x) { @tile() (x) + 1; }" = .ok p ∧
      ¬ ∃ r, ofSource p.text {} = .ok r := by
  refine (Program.exists_of_read (P := fun p => !(ofSource p.text {}).isOk) ?_).imp fun p h =>
    ⟨h.1, ?_⟩
  · decide +kernel
  · rintro ⟨r, hr⟩
    have hok := h.2
    rw [hr] at hok
    cases hok

end LoopNest
