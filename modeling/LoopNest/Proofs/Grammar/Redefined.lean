import LoopNest.Proofs.Grammar.Progress
import LoopNest.Proofs.Grammar.ScopeTree

/-!
# Second declarations

A declaration is reported if the open scope binds its name already. A name that is only used is
bound too, in the scope of the parameters, and there a parameter that is declared behind it counts as
a second one.

* `Reader.DeclaredBefore`, `Reader.UsedBefore`: why a scope binds a name already.
* `Reader.Recorded`: the redefinitions among the problems are those that the bindings tell of. Every
  step keeps this, whatever goes wrong (`Reader.recorded_invariant`).
* `Parse.FailsPlainly`: a failure is no redefinition, so that none is added where reading goes on.
* `Program.redefinitions_noted`: which declarations are reported.
-/

namespace LoopNest

/-! ## Bindings -/

/-- Implicit variables go to such a scope: none but the global one may lie around it. -/
def Scopes.Outermost (s : Scopes) (i : Nat) : Prop := ∀ o, s.outer? i = some o → s.outer? o = none

theorem Scopes.outermost_functionScope {s : Scopes} (hs : s.WellFormed) :
    s.Outermost s.functionScope := by
  have hchain (i : Nat) : s.Outermost (belowGlobal (s.around i)) := by
    induction i using Nat.strongRecOn with
    | ind i ih =>
      cases hi : s.outer? i with
      | none =>
        rw [around_of_none hi]
        intro o ho
        rw [belowGlobal, hi] at ho
        cases ho
      | some o =>
        have hlt := hs.outer_lt i o hi
        cases ho : s.outer? o with
        | none =>
          rw [around_of_some hs hi, around_of_none ho]
          intro o' ho'
          rw [belowGlobal, hi] at ho'
          cases ho'
          exact ho
        | some p =>
          obtain ⟨is, his⟩ := around_eq_cons hs p
          have hbelow : belowGlobal (s.around i) = belowGlobal (s.around o) := by
            rw [around_of_some hs hi, around_of_some hs ho, his]
            rfl
          rw [hbelow]
          exact ih o hlt
  exact hchain s.current

namespace Reader

/-- A parameter or a declarator declared the name in the scope before the number `id` was given. -/
def DeclaredBefore (r : Reader) (i id : Nat) (name : String) : Prop :=
  ∃ id' < id, ∃ x, r.BoundIn i id' x ∧ x.name = name ∧ x.implicit = false

/-- The name was used before without being declared, and was bound in the scope because of that. -/
def UsedBefore (r : Reader) (i id : Nat) (name : String) : Prop :=
  ∃ id' < id, ∃ x, r.BoundIn i id' x ∧ x.name = name ∧ x.implicit = true

/-- The variable is a declared one whose scope has its name from before. -/
def Redefines (r : Reader) (id : Nat) : Prop :=
  ∃ i x, r.BoundIn i id x ∧ x.implicit = false ∧
    (r.DeclaredBefore i id x.name ∨ r.UsedBefore i id x.name)

/-- The problem is that the variable of this number is declared again. -/
def Reports (r : Reader) (p : Problem) (id : Nat) : Prop :=
  ∃ x, r.vars.get? id = some x ∧ p = ⟨.redefinition x.name, x.span, none⟩

/-- Every variable is bound in one scope. The redefinitions among the problems are those of the
variables that redefine their names, in the order in which these were declared. -/
structure Recorded (r : Reader) : Prop where
  scopes : r.scopes.WellFormed
  entry : ∀ i b, b ∈ r.scopes.frame i →
    ∃ x, r.vars.get? b.2.id = some x ∧ b = (x.name, ⟨b.2.id, x.name⟩)
  bound : ∀ id x, r.vars.get? id = some x → ∃ i, r.BoundIn i id x
  unique : ∀ i j id x y, r.BoundIn i id x → r.BoundIn j id y → i = j
  implicit : ∀ i id x, r.BoundIn i id x → x.implicit = true → r.scopes.Outermost i
  noted : ∃ ids : List Nat, ids.Pairwise (· < ·) ∧ (∀ id, id ∈ ids ↔ r.Redefines id) ∧
    List.Forall₂ r.Reports (r.problems.filter Problem.isRedefinition) ids

section

variable {r r' : Reader} {i j id : Nat} {x y : Variable}

theorem BoundIn.id_lt (h : r.BoundIn i id x) : id < r.vars.size :=
  (Array.getElem?_eq_some_iff.mp h.1).1

theorem BoundIn.scope_lt (h : r.BoundIn i id x) : i < r.scopes.tree.size := by
  by_contra hle
  have hmem := h.2
  rw [Scopes.frame, Array.getElem?_eq_none (Nat.le_of_not_lt hle)] at hmem
  cases hmem

theorem Redefines.id_lt (h : r.Redefines id) : id < r.vars.size := by
  obtain ⟨_, _, hx, -⟩ := h
  exact hx.id_lt

theorem redefines_iff (r : Reader) (id : Nat) : r.Redefines id ↔
    ∃ i x, r.BoundIn i id x ∧ x.implicit = false ∧
      ∃ id' < id, ∃ y, r.BoundIn i id' y ∧ y.name = x.name := by
  constructor
  · rintro ⟨i, x, hx, hexplicit, ⟨id', hlt, y, hy, hname, -⟩ | ⟨id', hlt, y, hy, hname, -⟩⟩
    · exact ⟨i, x, hx, hexplicit, id', hlt, y, hy, hname⟩
    · exact ⟨i, x, hx, hexplicit, id', hlt, y, hy, hname⟩
  · rintro ⟨i, x, hx, hexplicit, id', hlt, y, hy, hname⟩
    refine ⟨i, x, hx, hexplicit, ?_⟩
    cases himplicit : y.implicit with
    | false => exact .inl ⟨id', hlt, y, hy, hname, himplicit⟩
    | true => exact .inr ⟨id', hlt, y, hy, hname, himplicit⟩

/-- Readers with the same variables and bindings, and with the same redefinitions. -/
theorem Recorded.of_eq (h : r.Recorded) (hscopes : r'.scopes.WellFormed)
    (houter : ∀ i < r.scopes.tree.size, r'.scopes.outer? i = r.scopes.outer? i)
    (hframe : r'.scopes.frame = r.scopes.frame) (hvars : r'.vars = r.vars)
    (hproblems : r'.problems.filter Problem.isRedefinition =
      r.problems.filter Problem.isRedefinition) : r'.Recorded := by
  have hbound : r'.BoundIn = r.BoundIn := by
    unfold BoundIn
    rw [hframe, hvars]
  have hredefines : r'.Redefines = r.Redefines := by
    funext id
    rw [redefines_iff, redefines_iff, hbound]
  have hreports : r'.Reports = r.Reports := by
    unfold Reports
    rw [hvars]
  refine ⟨hscopes, ?_, ?_, ?_, ?_, ?_⟩
  · rw [hframe, hvars]
    exact h.entry
  · rw [hvars, hbound]
    exact h.bound
  · rw [hbound]
    exact h.unique
  · rw [hbound]
    intro i id x hx himplicit o ho
    have hi := hx.scope_lt
    rw [houter i hi] at ho
    have hlt := h.scopes.outer_lt i o ho
    rw [houter o (Nat.lt_trans hlt hi)]
    exact h.implicit i id x hx himplicit o ho
  · rw [hredefines, hreports, hproblems]
    exact h.noted

/-! ## A new variable -/

namespace Adds

/-- The new variable is bound in its scope, and all others are bound where they were. -/
theorem boundIn_iff (ha : r.Adds i x r') (h : r.Recorded) : r'.BoundIn j id y ↔
    r.BoundIn j id y ∨ j = i ∧ id = r.vars.size ∧ y = x := by
  unfold BoundIn
  rw [ha.get?_iff, ha.mem_frame_iff]
  constructor
  · rintro ⟨hget | ⟨rfl, rfl⟩, hmem | ⟨hj, heq⟩⟩
    · exact .inl ⟨hget, hmem⟩
    · have hid : id = r.vars.size := congrArg (fun b => b.2.id) heq
      have hlt := (Array.getElem?_eq_some_iff.mp hget).1
      exact absurd (hid ▸ hlt) (Nat.lt_irrefl _)
    · obtain ⟨z, hz, -⟩ := h.entry j _ hmem
      exact absurd (Array.getElem?_eq_some_iff.mp hz).1 (Nat.lt_irrefl _)
    · exact .inr ⟨hj, rfl, rfl⟩
  · rintro (⟨hget, hmem⟩ | ⟨rfl, rfl, rfl⟩)
    · exact ⟨.inl hget, .inl hmem⟩
    · exact ⟨.inr ⟨rfl, rfl⟩, .inr ⟨rfl, rfl⟩⟩

theorem redefines_iff_of_lt (ha : r.Adds i x r') (h : r.Recorded) (hid : id < r.vars.size) :
    r'.Redefines id ↔ r.Redefines id := by
  have hold {j id' : Nat} {y : Variable} (hlt : id' < r.vars.size) :
      r'.BoundIn j id' y ↔ r.BoundIn j id' y := by
    rw [ha.boundIn_iff h]
    constructor
    · rintro (hy | ⟨-, rfl, -⟩)
      · exact hy
      · exact absurd hlt (Nat.lt_irrefl _)
    · exact .inl
  rw [redefines_iff, redefines_iff]
  constructor
  · rintro ⟨j, y, hy, hexplicit, id', hlt, z, hz, hname⟩
    exact ⟨j, y, (hold hid).mp hy, hexplicit, id', hlt, z, (hold (Nat.lt_trans hlt hid)).mp hz,
      hname⟩
  · rintro ⟨j, y, hy, hexplicit, id', hlt, z, hz, hname⟩
    exact ⟨j, y, (hold hid).mpr hy, hexplicit, id', hlt, z, (hold (Nat.lt_trans hlt hid)).mpr hz,
      hname⟩

theorem redefines_size_iff (ha : r.Adds i x r') (h : r.Recorded) : r'.Redefines r.vars.size ↔
    x.implicit = false ∧ ∃ id y, r.BoundIn i id y ∧ y.name = x.name := by
  rw [redefines_iff]
  constructor
  · rintro ⟨j, y, hy, hexplicit, id', hlt, z, hz, hname⟩
    rcases (ha.boundIn_iff h).mp hy with hy | ⟨rfl, -, rfl⟩
    · exact absurd hy.id_lt (Nat.lt_irrefl _)
    · rcases (ha.boundIn_iff h).mp hz with hz | ⟨-, rfl, -⟩
      · exact ⟨hexplicit, id', z, hz, hname⟩
      · exact absurd hlt (Nat.lt_irrefl _)
  · rintro ⟨hexplicit, id', z, hz, hname⟩
    exact ⟨i, x, (ha.boundIn_iff h).mpr (.inr ⟨rfl, rfl, rfl⟩), hexplicit, id', hz.id_lt, z,
      (ha.boundIn_iff h).mpr (.inl hz), hname⟩

theorem reports (ha : r.Adds i x r') {p : Problem} (hp : r.Reports p id) : r'.Reports p id := by
  obtain ⟨y, hy, rfl⟩ := hp
  exact ⟨y, ha.get?_iff.mpr (.inl hy), rfl⟩

theorem lt_or_eq_of_redefines (ha : r.Adds i x r') (h : r.Recorded) (hid : r'.Redefines id) :
    id < r.vars.size ∨ id = r.vars.size := by
  obtain ⟨j, y, hy, -⟩ := hid
  rcases (ha.boundIn_iff h).mp hy with hy | ⟨-, hid, -⟩
  · exact .inl hy.id_lt
  · exact .inr hid

/-- The new variable redefines its name, and is the last one of those that do. -/
theorem noted_concat (ha : r.Adds i x r') (h : r.Recorded) (hredefines : r'.Redefines r.vars.size)
    (hproblems : r'.problems = r.problems ++ [⟨.redefinition x.name, x.span, none⟩]) :
    ∃ ids : List Nat, ids.Pairwise (· < ·) ∧ (∀ id, id ∈ ids ↔ r'.Redefines id) ∧
      List.Forall₂ r'.Reports (r'.problems.filter Problem.isRedefinition) ids := by
  obtain ⟨ids, hsorted, hids, hnoted⟩ := h.noted
  have hlt (id : Nat) (hid : id ∈ ids) : id < r.vars.size := ((hids id).mp hid).id_lt
  refine ⟨ids ++ [r.vars.size], ?_, fun id => ?_, ?_⟩
  · apply List.pairwise_append.mpr
    refine ⟨hsorted, List.pairwise_singleton _ _, fun id hid k hk => ?_⟩
    rw [List.mem_singleton.mp hk]
    exact hlt id hid
  · rw [List.mem_append, List.mem_singleton]
    constructor
    · rintro (hid | rfl)
      · exact (ha.redefines_iff_of_lt h (hlt id hid)).mpr ((hids id).mp hid)
      · exact hredefines
    · intro hid
      rcases ha.lt_or_eq_of_redefines h hid with hid' | rfl
      · exact .inl ((hids id).mpr ((ha.redefines_iff_of_lt h hid').mp hid))
      · exact .inr rfl
  · rw [hproblems, List.filter_append]
    exact List.rel_append (hnoted.imp fun _ _ => ha.reports)
      (.cons ⟨x, ha.get?_iff.mpr (.inr ⟨rfl, rfl⟩), rfl⟩ .nil)

/-- The new variable redefines nothing. -/
theorem noted_same (ha : r.Adds i x r') (h : r.Recorded)
    (hredefines : ¬ r'.Redefines r.vars.size) (hproblems : r'.problems = r.problems) :
    ∃ ids : List Nat, ids.Pairwise (· < ·) ∧ (∀ id, id ∈ ids ↔ r'.Redefines id) ∧
      List.Forall₂ r'.Reports (r'.problems.filter Problem.isRedefinition) ids := by
  obtain ⟨ids, hsorted, hids, hnoted⟩ := h.noted
  refine ⟨ids, hsorted, fun id => ?_, ?_⟩
  · constructor
    · intro hid
      have hold := (hids id).mp hid
      exact (ha.redefines_iff_of_lt h hold.id_lt).mpr hold
    · intro hid
      rcases ha.lt_or_eq_of_redefines h hid with hid' | rfl
      · exact (hids id).mpr ((ha.redefines_iff_of_lt h hid').mp hid)
      · exact absurd hid hredefines
  · rw [hproblems]
    exact hnoted.imp fun _ _ => ha.reports

/-- A new variable is recorded if it is reported exactly if it redefines a name. -/
theorem recorded (ha : r.Adds i x r') (h : r.Recorded)
    (himplicit : x.implicit = true → r.scopes.Outermost i)
    (hproblems : r'.Redefines r.vars.size ∧ r'.problems =
        r.problems ++ [⟨.redefinition x.name, x.span, none⟩] ∨
      ¬ r'.Redefines r.vars.size ∧ r'.problems = r.problems) : r'.Recorded := by
  have houter (j : Nat) : r'.scopes.outer? j = r.scopes.outer? j := by
    rw [ha.scopes]
    exact Scopes.outer?_bind _ _ _ j
  refine ⟨?_, ?_, ?_, ?_, ?_, ?_⟩
  · rw [ha.scopes]
    exact h.scopes.bind _ _ _
  · intro j b hb
    rcases ha.mem_frame_iff.mp hb with hb | ⟨-, rfl⟩
    · obtain ⟨y, hy, hb⟩ := h.entry j b hb
      exact ⟨y, ha.get?_iff.mpr (.inl hy), hb⟩
    · exact ⟨x, ha.get?_iff.mpr (.inr ⟨rfl, rfl⟩), rfl⟩
  · intro id y hy
    rcases ha.get?_iff.mp hy with hy | ⟨rfl, rfl⟩
    · obtain ⟨j, hj⟩ := h.bound id y hy
      exact ⟨j, (ha.boundIn_iff h).mpr (.inl hj)⟩
    · exact ⟨i, (ha.boundIn_iff h).mpr (.inr ⟨rfl, rfl, rfl⟩)⟩
  · intro j k id y z hy hz
    rcases (ha.boundIn_iff h).mp hy with hy | ⟨rfl, rfl, -⟩
    · rcases (ha.boundIn_iff h).mp hz with hz | ⟨-, rfl, -⟩
      · exact h.unique j k id y z hy hz
      · exact absurd hy.id_lt (Nat.lt_irrefl _)
    · rcases (ha.boundIn_iff h).mp hz with hz | ⟨rfl, -, -⟩
      · exact absurd hz.id_lt (Nat.lt_irrefl _)
      · rfl
  · intro j id y hy hmade o ho
    rw [houter] at ho ⊢
    rcases (ha.boundIn_iff h).mp hy with hy | ⟨rfl, -, rfl⟩
    · exact h.implicit j id y hy hmade o ho
    · exact himplicit hmade o ho
  · rcases hproblems with ⟨hredefines, hproblems⟩ | ⟨hredefines, hproblems⟩
    · exact ha.noted_concat h hredefines hproblems
    · exact ha.noted_same h hredefines hproblems

end Adds

end

/-! ## Steps -/

theorem recorded_invariant : Parse.Invariant fun r s => r.Recorded → s.Recorded where
  refl _ := id
  trans h h' := h' ∘ h
  advance r h := by
    unfold advance
    split
    all_goals exact h.of_eq h.scopes (fun _ _ => rfl) rfl rfl rfl
  stopHere r h := h.of_eq h.scopes (fun _ _ => rfl) rfl rfl rfl
  resolve name span r h := by
    rw [Parse.resolve_apply]
    cases hlookup : r.scopes.lookup name with
    | some v =>
      simp only [Scopes.resolve, hlookup]
      exact h
    | none =>
      simp only [Scopes.resolve, hlookup]
      let r' : Reader := { r with
        vars := (r.vars.declareImplicit name span).2
        scopes := r.scopes.bind r.scopes.functionScope name ⟨r.vars.size, name⟩ }
      have ha : r.Adds r.scopes.functionScope ⟨name, .int, span, true⟩ r' :=
        ⟨rfl, rfl, Scopes.functionScope_lt h.scopes⟩
      apply ha.recorded h fun _ => Scopes.outermost_functionScope h.scopes
      right
      rw [ha.redefines_size_iff h]
      exact ⟨fun hexplicit => absurd hexplicit.1 Bool.noConfusion, rfl⟩
  inScope {r s} hrun h := by
    have hopen : ({ r with scopes := r.scopes.push } : Reader).Recorded := by
      refine h.of_eq h.scopes.push (fun i hi => ?_) (frame_push _) rfl rfl
      exact Scopes.outer?_push_of_lt hi
    have hs := hrun hopen
    exact hs.of_eq hs.scopes.pop (fun _ _ => rfl) rfl rfl rfl

/-- A declaration is reported if the open scope binds the name. -/
theorem Recorded.declare {r : Reader} (h : r.Recorded) (name : String) (type : VarType)
    (span : Span) : (Parse.declare name type span r).2.Recorded := by
  have hagain : (r.scopes.declare r.vars name type span).1.2 = true ↔
      ∃ id y, r.BoundIn r.scopes.current id y ∧ y.name = name := by
    show (r.scopes.find? name r.scopes.current).isSome = true ↔ _
    rw [Scopes.find?_eq, List.lookup_isSome_iff]
    constructor
    · rintro ⟨b, hb, hname⟩
      obtain ⟨y, hy, hbound⟩ := h.entry _ b hb
      rw [hbound] at hb hname
      exact ⟨b.2.id, y, ⟨hy, hb⟩, eq_of_beq hname |>.symm⟩
    · rintro ⟨id, y, hy, rfl⟩
      exact ⟨_, hy.2, beq_self_eq_true _⟩
  have ha := adds_declare h.scopes name type span
  apply ha.recorded h nofun
  rw [ha.redefines_size_iff h, Parse.declare_apply]
  dsimp only
  split
  · next hflag => exact .inl ⟨⟨rfl, hagain.mp hflag⟩, rfl⟩
  · next hflag => exact .inr ⟨fun hredefines => hflag (hagain.mpr hredefines.2), rfl⟩

end Reader

namespace Parse

variable {α β : Type}

/-- If the step fails then not because of a redefinition. -/
abbrev FailsPlainly (step : Parse α) : Prop := FailsAs (fun _ p => p.isRedefinition = false) step

theorem failsPlainly_closed : Closed fun _ step => FailsPlainly step :=
  failsAs_closed (fun _ _ hcause => hcause) (fun _ _ => rfl) fun _ _ _ h => h

/-- The step keeps the record, and its failure is no redefinition. -/
def Records (step : Parse α) : Prop :=
  Keeps (fun r s => r.Recorded → s.Recorded) step ∧ FailsPlainly step

theorem records_closed : Closed fun _ step => Records step :=
  Reader.recorded_invariant.closed.and failsPlainly_closed

/-- Going on behind a failure adds no redefinition. -/
theorem Records.recovering {step : Parse α} (h : step.Records) {recover : Reader → Reader}
    (hrecover : ∀ r : Reader, r.Recorded → (recover r).Recorded) :
    (Parse.recovering step recover).Records := by
  refine ⟨h.1.recovering Reader.recorded_invariant (fun r p hp hr => ?_) h.2 hrecover,
    recovering_failsAs step recover⟩
  refine hr.of_eq hr.scopes (fun _ _ => rfl) rfl rfl ?_
  rw [Reader.addProblem, List.filter_append, List.filter_singleton, hp]
  exact List.append_nil _

end Parse

namespace Grammar

open Parse

theorem Handling.tolerant_records : Handling.tolerant.Closed fun _ step => Records step where
  declare name type span :=
    ⟨fun _ hr => hr.declare name type span, declare_failsAs name type span⟩
  statement start h := h.recovering (Reader.recorded_invariant.recoverStatement start)
  function h := h.recovering Reader.recorded_invariant.recoverFunction

theorem functions_records : functions.Records := by
  rw [← Handling.functions_tolerant]
  exact Handling.functions_closed records_closed (Handling.tolerant_records.admits records_closed)

end Grammar

/-! ## Source texts -/

theorem Reader.state_of_ofSource {source : String} {r : Reader} (hr : ofSource source = .ok r) :
    r.vars = {} ∧ r.scopes = .global ∧ r.problems = [] := by
  unfold ofSource at hr
  split at hr
  all_goals cases hr
  all_goals exact ⟨rfl, rfl, rfl⟩

/-- At the first token there is nothing to tell of. -/
theorem Reader.recorded_of_ofSource {source : String} {r : Reader}
    (hr : Reader.ofSource source = .ok r) : r.Recorded := by
  obtain ⟨hvars, hscopes, hproblems⟩ := state_of_ofSource hr
  have hnone (id : Nat) : r.vars.get? id = none := by
    rw [hvars]
    simp [VarTable.get?]
  have hframe (i : Nat) : r.scopes.frame i = [] := by
    rw [hscopes, Scopes.frame, Scopes.global]
    rcases i with _ | i <;> simp
  have hbound (i id : Nat) (x : Variable) : ¬ r.BoundIn i id x := by
    rintro ⟨hget, -⟩
    rw [hnone] at hget
    cases hget
  refine ⟨hscopes ▸ Scopes.wellFormed_global, ?_, ?_, ?_, ?_, [], .nil, fun id => ?_, ?_⟩
  · intro i b hb
    rw [hframe] at hb
    cases hb
  · intro id x hx
    rw [hnone] at hx
    cases hx
  · exact fun i j id x y hx => absurd hx (hbound i id x)
  · exact fun i id x hx => absurd hx (hbound i id x)
  · constructor
    · intro hid
      cases hid
    · rintro ⟨i, x, hx, -⟩
      exact absurd hx (hbound i id x)
  · rw [hproblems]
    exact .nil

/-- The functions of a source are read to its end, whatever is wrong in them. -/
theorem Reader.exists_functions {source : String} {r : Reader} (hr : ofSource source = .ok r) :
    ∃ fs r', Grammar.functions r = (.ok fs, r') := by
  have hclosed := (sound_of_ofSource hr).1.closed
  obtain ⟨items, r', hitems, -⟩ := (Grammar.ends_of_closed hclosed).functions.2
  refine ⟨items.filterMap id, r', ?_⟩
  unfold Grammar.functions
  rw [Parse.bind_apply, hitems]
  rfl

namespace Program

theorem read_eq {source : String} {r r' : Reader} {fs : List Function}
    (hr : Reader.ofSource source = .ok r) (hrun : Grammar.functions r = (.ok fs, r')) :
    read source = if r'.problems.isEmpty then
      .ok ⟨fs, r'.vars, r.current.span.merge r'.previous.span⟩ else .error (.problems r'.problems) := by
  simp only [read, hr, hrun]

/-- **Which declarations are reported.** Whatever is wrong in a source text, the variables of the
parameters and declarators that are read are bound in the scopes of their constructs, and each
variable is bound in one scope. The redefinitions that are noted are those of the parameters and
declarators whose scope has a declaration of the name from before; and of those whose scope got the
name when it was used before, undeclared, which happens to nothing but parameters. -/
theorem redefinitions_noted {source : String} {r : Reader} (hr : Reader.ofSource source = .ok r) :
    ∃ fs r', Grammar.functions r = (.ok fs, r') ∧
      (∀ p, read source = .ok p → r'.problems = []) ∧
      (∀ ps, read source = .error (.problems ps) → r'.problems = ps) ∧
      (∃ js, js.Pairwise (· < ·) ∧ Function.AllStandIn r' 0 js fs) ∧
      (∀ id x, r'.vars.get? id = some x → ∃! i, r'.BoundIn i id x) ∧
      ∃ ids, ids.Pairwise (· < ·) ∧
        List.Forall₂ r'.Reports (r'.problems.filter Problem.isRedefinition) ids ∧
        ∀ i id x, r'.BoundIn i id x →
          (id ∈ ids ↔ x.implicit = false ∧
            (r'.DeclaredBefore i id x.name ∨ r'.UsedBefore i id x.name)) ∧
          (r'.UsedBefore i id x.name → r'.scopes.Outermost i) := by
  obtain ⟨hvars, hscopes, hproblems⟩ := Reader.state_of_ofSource hr
  obtain ⟨fs, r', hrun⟩ := Reader.exists_functions hr
  have hrecorded := Grammar.functions_records.1 r (Reader.recorded_of_ofSource hr)
  rw [hrun] at hrecorded
  have hwell : r.scopes.WellFormed := hscopes ▸ Scopes.wellFormed_global
  obtain ⟨js, hjs, hfs⟩ := Grammar.functions_settle.result hrun hwell
  have hall := hfs r' ⟨id, id⟩
  rw [hscopes] at hall
  obtain ⟨ids, hsorted, hids, hnoted⟩ := hrecorded.noted
  refine ⟨fs, r', hrun, fun p hp => ?_, fun ps hps => ?_, ⟨js, hjs.sorted, hall⟩,
    fun id x hx => ?_, ids, hsorted, hnoted, fun i id x hx => ⟨?_, ?_⟩⟩
  · rw [read_eq hr hrun] at hp
    split at hp
    · next hempty => exact List.isEmpty_iff.mp hempty
    · cases hp
  · rw [read_eq hr hrun] at hps
    split at hps
    · cases hps
    · cases hps
      rfl
  · obtain ⟨i, hi⟩ := hrecorded.bound id x hx
    exact ⟨i, hi, fun j hj => hrecorded.unique j i id x x hj hi⟩
  · rw [hids]
    constructor
    · rintro ⟨j, y, hy, hredefines⟩
      obtain rfl := hrecorded.unique j i id y x hy hx
      obtain rfl : y = x := Option.some.inj (hy.1.symm.trans hx.1)
      exact hredefines
    · exact fun hredefines => ⟨i, x, hx, hredefines⟩
  · rintro ⟨id', -, y, hy, -, himplicit⟩
    exact hrecorded.implicit i id' y hy himplicit

/-- The second declarations of a parameter and of an iterator are reported. Those in inner blocks,
which hide a parameter, are not. -/
theorem redefinitions_noted_twice : ∃ r, Reader.ofSource
      "void f(int n, int n) \x7b int n; \x7b int n; \x7d for (int i = 0; ; ) int i; \x7d" = .ok r ∧
    ∃ fs r', Grammar.functions r = (.ok fs, r') ∧
      (∃ js, js.Pairwise (· < ·) ∧ Function.AllStandIn r' 0 js fs) ∧
      ∃ ids, ids.length = 2 ∧
        List.Forall₂ r'.Reports (r'.problems.filter Problem.isRedefinition) ids ∧
        ∀ i id x, r'.BoundIn i id x → (id ∈ ids ↔ x.implicit = false ∧
          (r'.DeclaredBefore i id x.name ∨ r'.UsedBefore i id x.name)) := by
  obtain ⟨r, hr, htwo⟩ := Reader.exists_of_ofSource
    "void f(int n, int n) \x7b int n; \x7b int n; \x7d for (int i = 0; ; ) int i; \x7d"
    (P := fun r => ((Grammar.functions r).2.problems.filter Problem.isRedefinition).length = 2)
    (by decide +kernel)
  obtain ⟨fs, r', hrun, -, -, hscopes, -, ids, -, hnoted, hids⟩ := redefinitions_noted hr
  rw [hrun] at htwo
  refine ⟨r, hr, fs, r', hrun, hscopes, ids, ?_, hnoted, fun i id x hx => (hids i id x hx).1⟩
  exact hnoted.length_eq.symm.trans (of_decide_eq_true htwo)

/-- The second parameter alone has the name, and it is reported: the size of the first one uses the
name before it is declared. -/
theorem redefinition_of_used_name :
    ∃ r, Reader.ofSource "void f(int a[n], int n) \x7b\x7d" = .ok r ∧
      let r' := (Grammar.functions r).2
      (∃ p ∈ r'.problems, r'.Reports p 2) ∧ ∀ i, ¬ r'.DeclaredBefore i 2 "n" := by
  obtain ⟨r, hr, hrun⟩ := Reader.exists_of_ofSource
    "void f(int a[n], int n) \x7b\x7d"
    (P := fun r =>
      (Grammar.functions r).2.vars.entries =
        #[⟨"n", .int, ⟨⟨1, 14, 13⟩, ⟨1, 15, 14⟩⟩, true⟩,
          ⟨"a", ⟨.int, 1⟩, ⟨⟨1, 12, 11⟩, ⟨1, 13, 12⟩⟩, false⟩,
          ⟨"n", .int, ⟨⟨1, 22, 21⟩, ⟨1, 23, 22⟩⟩, false⟩] ∧
      (Grammar.functions r).2.problems =
        [⟨.redefinition "n", ⟨⟨1, 22, 21⟩, ⟨1, 23, 22⟩⟩, none⟩])
    (by decide +kernel)
  obtain ⟨hvars, hproblems⟩ := of_decide_eq_true hrun
  refine ⟨r, hr, ?_, ?_⟩
  · have hentry : (Grammar.functions r).2.vars.get? 2 =
        some ⟨"n", .int, ⟨⟨1, 22, 21⟩, ⟨1, 23, 22⟩⟩, false⟩ := by
      rw [VarTable.get?, hvars]
      rfl
    exact ⟨_, hproblems ▸ List.mem_singleton_self _, _, hentry, rfl⟩
  · rintro i ⟨id, hlt, y, ⟨hy, -⟩, hname, hexplicit⟩
    rw [VarTable.get?, hvars] at hy
    obtain rfl | rfl : id = 0 ∨ id = 1 := by omega
    · cases hy
      cases hexplicit
    · cases hy
      exact absurd hname (by decide)

end Program

end LoopNest
