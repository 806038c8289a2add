import LoopNest.Proofs.Variable.Context

/-!
# Scopes against a stack of name maps

Scopes stay in their tree when they are closed, and the open one is a place in the tree that moves.
Whoever uses them sees a stack of name maps all the same: opening puts an empty map on top, closing
drops the top one, and what was bound there is gone.

* `ScopeStep`, `ScopeAnswer`: what can be done with scopes and a table of variables, and what is
  told of it.
* `NameStack`: a global map with others above it, and all variables so far.
* `ScopeState.Represents`: the tree and the table look like the stack. Every step keeps it.
* `NameStack.Gone`: a variable that no map binds any more, as nothing brings it back.
* `ScopeState.run_eq_stack`: any run tells what the same run of the stack tells.
-/

namespace LoopNest

/-! ## Steps -/

inductive ScopeStep where
  | push
  | pop
  | declare (name : String) (type : VarType) (span : Span)
  | resolve (name : String) (span : Span)
  | lookup (name : String)

/-- What a step tells: nothing, the new variable and whether its scope had the name, the variable
that a name is resolved to, or the variable of a name if there is one. -/
inductive ScopeAnswer where
  | done
  | declared (v : VarRef) (again : Bool)
  | resolved (v : VarRef)
  | found (v : Option VarRef)
deriving DecidableEq

/-- The variable that a step tells of. -/
def ScopeAnswer.var? : ScopeAnswer → Option VarRef
  | done => none
  | declared v _ | resolved v => some v
  | found v => v

/-- One step after the other, with what they tell. -/
def ScopeStep.run {σ : Type} (step : σ → ScopeStep → ScopeAnswer × σ) :
    List ScopeStep → σ → List ScopeAnswer × σ
  | [], s => ([], s)
  | a :: as, s => ((step s a).1 :: (run step as (step s a).2).1, (run step as (step s a).2).2)

theorem ScopeStep.run_append {σ : Type} (step : σ → ScopeStep → ScopeAnswer × σ)
    (as bs : List ScopeStep) (s : σ) : run step (as ++ bs) s =
      ((run step as s).1 ++ (run step bs (run step as s).2).1, (run step bs (run step as s).2).2) := by
  induction as generalizing s with
  | nil => rfl
  | cons a as ih => rw [List.cons_append, run, ih, run, List.cons_append]

/-- Scopes with the table that they are over. -/
structure ScopeState where
  scopes : Scopes
  vars : VarTable

namespace ScopeState

def fresh : ScopeState := ⟨.global, {}⟩

def step (s : ScopeState) : ScopeStep → ScopeAnswer × ScopeState
  | .push => (.done, { s with scopes := s.scopes.push })
  | .pop => (.done, { s with scopes := s.scopes.pop })
  | .declare name type span =>
    let ((v, again), vars, scopes) := s.scopes.declare s.vars name type span
    (.declared v again, ⟨scopes, vars⟩)
  | .resolve name span =>
    let (v, vars, scopes) := s.scopes.resolve s.vars name span
    (.resolved v, ⟨scopes, vars⟩)
  | .lookup name => (.found (s.scopes.lookup name), s)

/-- A run that starts with fresh scopes and no variables. -/
def run (steps : List ScopeStep) : List ScopeAnswer × ScopeState := ScopeStep.run step steps fresh

end ScopeState

/-! ## The stack -/

/-- The variables that names stand for. -/
abbrev NameMap := String → Option VarRef

namespace NameMap

def empty : NameMap := fun _ => none

def bind (m : NameMap) (name : String) (v : VarRef) : NameMap :=
  fun n => if n = name then some v else m n

end NameMap

/-- A stack of name maps, the top one first and the global one apart, with all variables so far. -/
structure NameStack where
  above : List NameMap
  bottom : NameMap
  vars : List Variable

namespace NameStack

def fresh : NameStack := ⟨[], .empty, []⟩

/-- The maps from the top to the global one. -/
def maps (k : NameStack) : List NameMap := k.above ++ [k.bottom]

def top (k : NameStack) : NameMap := k.above.headD k.bottom

/-- The variable of a name in the topmost map that binds it. -/
def find? (k : NameStack) (name : String) : Option VarRef := k.maps.findSome? fun m => m name

/-- Binds a name in the top map. -/
def bindTop (k : NameStack) (name : String) (v : VarRef) : NameStack :=
  match k.above with
  | [] => { k with bottom := k.bottom.bind name v }
  | m :: ms => { k with above := m.bind name v :: ms }

/-- Binds a name in the map directly above the global one, or in the global one if that is alone. -/
def bindLowest (k : NameStack) (name : String) (v : VarRef) : NameStack :=
  match k.above.getLast? with
  | none => { k with bottom := k.bottom.bind name v }
  | some m => { k with above := k.above.dropLast ++ [m.bind name v] }

/-- Adds a variable, with the number of variables before it. -/
def add (k : NameStack) (x : Variable) : VarRef × NameStack :=
  (⟨k.vars.length, x.name⟩, { k with vars := k.vars ++ [x] })

def step (k : NameStack) : ScopeStep → ScopeAnswer × NameStack
  | .push => (.done, { k with above := .empty :: k.above })
  | .pop => (.done, { k with above := k.above.tail })
  | .declare name type span =>
    let (v, k') := k.add ⟨name, type, span, false⟩
    (.declared v (k.top name).isSome, k'.bindTop name v)
  | .resolve name span =>
    match k.find? name with
    | some v => (.resolved v, k)
    | none =>
      let (v, k') := k.add ⟨name, .int, span, true⟩
      (.resolved v, k'.bindLowest name v)
  | .lookup name => (.found (k.find? name), k)

/-- A run that starts with an empty global map and no variables. -/
def run (steps : List ScopeStep) : List ScopeAnswer × NameStack := ScopeStep.run step steps fresh

end NameStack

/-! ## What the tree looks like -/

/-- The names that a frame binds. -/
def Frame.names (f : Frame) : NameMap := fun n => f.lookup n

namespace Frame

theorem names_cons (name : String) (v : VarRef) (f : Frame) :
    names ((name, v) :: f) = f.names.bind name v := by
  funext n
  rw [names, NameMap.bind, List.lookup_cons]
  by_cases h : n = name
  · rw [h, beq_self_eq_true, if_pos rfl]
  · rw [beq_false_of_ne h, if_neg h]
    rfl

theorem findSome?_names (fs : List Frame) (name : String) :
    (fs.map names).findSome? (fun m => m name) = find? fs name := by
  rw [List.findSome?_map]
  rfl

/-- Above the last frame, the lowest one is bound in. -/
theorem bindOuter_snoc (b : String × VarRef) (fs : List Frame) (f g : Frame) :
    bindOuter b (fs ++ [f, g]) = fs ++ [b :: f, g] := by
  induction fs with
  | nil => rfl
  | cons h fs ih =>
    obtain ⟨i, j, is, his⟩ : ∃ i j is, fs ++ [f, g] = i :: j :: is := by
      match fs with
      | [] => exact ⟨f, g, [], rfl⟩
      | [i] => exact ⟨i, f, [g], rfl⟩
      | i :: j :: is => exact ⟨i, j, is ++ [f, g], rfl⟩
    rw [List.cons_append, List.cons_append, ← ih, his]
    rfl

end Frame

/-- Only the global scope lies in no other one. -/
theorem Scopes.length_frames_eq_one {s : Scopes} (hs : s.WellFormed) :
    s.frames.length = 1 ↔ s.outer? s.current = none := by
  have hframes : s.frames = (s.around s.current).map s.frame := rfl
  rw [hframes, List.length_map]
  cases h : s.outer? s.current with
  | none => simp [around_of_none h]
  | some o =>
    obtain ⟨is, his⟩ := around_eq_cons hs o
    simp [around_of_some hs h, his]

namespace ScopeState

/-- The frames that can be seen bind what the maps of the stack do, and the tables are the same. -/
structure Represents (s : ScopeState) (k : NameStack) : Prop where
  wellFormed : s.scopes.WellFormed
  maps : s.scopes.frames.map Frame.names = k.maps
  vars : s.vars.entries.toList = k.vars

namespace Represents

variable {s : ScopeState} {k : NameStack} {name : String}

theorem fresh : ScopeState.fresh.Represents .fresh :=
  ⟨Scopes.wellFormed_global, rfl, rfl⟩

theorem size (h : s.Represents k) : s.vars.size = k.vars.length := by
  rw [← h.vars]
  exact Array.length_toList.symm

theorem lookup (h : s.Represents k) (name : String) : s.scopes.lookup name = k.find? name := by
  rw [Scopes.lookup_eq, NameStack.find?, ← h.maps, Frame.findSome?_names]

/-- The frame of the open scope is the top map. -/
theorem top (h : s.Represents k) : ∃ f fs, s.scopes.frames = f :: fs ∧ f.names = k.top := by
  obtain ⟨f, fs, hframes⟩ := Scopes.frames_eq_cons h.wellFormed
  refine ⟨f, fs, hframes, ?_⟩
  have hmaps := h.maps
  rw [hframes, List.map_cons, NameStack.maps] at hmaps
  rw [NameStack.top]
  cases habove : k.above with
  | nil =>
    rw [habove] at hmaps
    exact (List.cons.inj hmaps).1
  | cons m ms =>
    rw [habove] at hmaps
    exact (List.cons.inj hmaps).1

theorem push (h : s.Represents k) :
    Represents { s with scopes := s.scopes.push } { k with above := .empty :: k.above } := by
  refine ⟨h.wellFormed.push, ?_, h.vars⟩
  rw [Scopes.frames_push h.wellFormed, List.map_cons, h.maps]
  rfl

/-- Closing the global scope changes neither side. -/
theorem pop (h : s.Represents k) :
    Represents { s with scopes := s.scopes.pop } { k with above := k.above.tail } := by
  refine ⟨h.wellFormed.pop, ?_, h.vars⟩
  have hone := Scopes.length_frames_eq_one h.wellFormed
  have hlength : s.scopes.frames.length = k.above.length + 1 := by
    have hmaps := congrArg List.length h.maps
    rwa [List.length_map, NameStack.maps, List.length_append] at hmaps
  cases habove : k.above with
  | nil =>
    have houter : s.scopes.outer? s.scopes.current = none := hone.mp (by rw [hlength, habove]; rfl)
    have hpop : s.scopes.pop = s.scopes := by rw [Scopes.pop, houter, Option.getD_none]
    show s.scopes.pop.frames.map _ = _
    rw [hpop, h.maps, NameStack.maps, habove]
    rfl
  | cons m ms =>
    obtain ⟨o, ho⟩ : ∃ o, s.scopes.outer? s.scopes.current = some o := by
      refine Option.ne_none_iff_exists'.mp fun hnone => ?_
      have hlength' := hone.mpr hnone
      rw [hlength, habove, List.length_cons] at hlength'
      omega
    show s.scopes.pop.frames.map _ = _
    rw [Scopes.frames_pop h.wellFormed ho, List.map_tail, h.maps, NameStack.maps, habove]
    rfl

/-- The table grows by a variable, with the same number on both sides. -/
theorem add (h : s.Represents k) (x : Variable) : (s.vars.add x).1 = (k.add x).1 ∧
    Represents { s with vars := (s.vars.add x).2 } (k.add x).2 := by
  refine ⟨?_, h.wellFormed, h.maps, ?_⟩
  · rw [VarTable.add, NameStack.add, h.size]
  · rw [VarTable.add, NameStack.add, Array.toList_push, h.vars]

theorem bindTop (h : s.Represents k) (name : String) (v : VarRef) :
    Represents { s with scopes := s.scopes.bind s.scopes.current name v } (k.bindTop name v) := by
  refine ⟨h.wellFormed.bind _ _ _, ?_, ?_⟩
  · obtain ⟨f, fs, hframes⟩ := Scopes.frames_eq_cons h.wellFormed
    have hmaps := h.maps
    show (Scopes.frames _).map _ = _
    rw [Scopes.frames_bind_current name v h.wellFormed, hframes]
    rw [hframes, List.map_cons, NameStack.maps] at hmaps
    rw [Frame.bindInner, List.map_cons, Frame.names_cons, NameStack.bindTop, NameStack.maps]
    cases habove : k.above with
    | nil =>
      rw [habove] at hmaps
      obtain ⟨hf, hfs⟩ := List.cons.inj hmaps
      rw [hf, hfs]
      rfl
    | cons m ms =>
      rw [habove] at hmaps
      obtain ⟨hf, hfs⟩ := List.cons.inj hmaps
      rw [hf, hfs]
      rfl
  · rw [h.vars, NameStack.bindTop]
    split <;> rfl

theorem bindLowest (h : s.Represents k) (name : String) (v : VarRef) :
    Represents { s with scopes := s.scopes.bind s.scopes.functionScope name v }
      (k.bindLowest name v) := by
  refine ⟨h.wellFormed.bind _ _ _, ?_, ?_⟩
  · have hmaps := h.maps
    show (Scopes.frames _).map _ = _
    rw [Scopes.frames_bind_functionScope name v h.wellFormed]
    rw [NameStack.maps] at hmaps
    obtain ⟨fs, gs, hframes, hfs, hgs⟩ := List.map_eq_append_iff.mp hmaps
    obtain ⟨g, rfl, hg⟩ := List.map_eq_singleton_iff.mp hgs
    rw [hframes, NameStack.bindLowest, NameStack.maps, ← hfs, List.getLast?_map]
    rcases List.eq_nil_or_concat fs with rfl | ⟨fs, f, rfl⟩
    · show [Frame.names ((name, v) :: g)] = [k.bottom.bind name v]
      rw [Frame.names_cons, hg]
    · rw [List.concat_eq_append, List.append_assoc, List.singleton_append, Frame.bindOuter_snoc,
        List.getLast?_append]
      simp [Frame.names_cons, hg]
  · rw [h.vars, NameStack.bindLowest]
    split <;> rfl

/-- Every step tells the same on both sides. -/
theorem step (h : s.Represents k) (a : ScopeStep) :
    (s.step a).1 = (k.step a).1 ∧ (s.step a).2.Represents (k.step a).2 := by
  cases a with
  | push => exact ⟨rfl, h.push⟩
  | pop => exact ⟨rfl, h.pop⟩
  | declare name type span =>
    let x : Variable := ⟨name, type, span, false⟩
    obtain ⟨hv, hadd⟩ := h.add x
    obtain ⟨f, fs, hframes, htop⟩ := h.top
    have hagain : s.scopes.find? name s.scopes.current = k.top name := by
      rw [Scopes.find?_current h.wellFormed, hframes, ← htop]
      rfl
    constructor
    · show ScopeAnswer.declared (s.vars.add x).1 (s.scopes.find? name s.scopes.current).isSome = _
      rw [hv, hagain]
      rfl
    · show Represents ⟨s.scopes.bind s.scopes.current name (s.vars.add x).1, (s.vars.add x).2⟩
        ((k.add x).2.bindTop name (k.add x).1)
      rw [← hv]
      exact hadd.bindTop name _
  | resolve name span =>
    rw [ScopeState.step, NameStack.step, Scopes.resolve, h.lookup name]
    cases k.find? name with
    | some v => exact ⟨rfl, h⟩
    | none =>
      let x : Variable := ⟨name, .int, span, true⟩
      obtain ⟨hv, hadd⟩ := h.add x
      refine ⟨congrArg ScopeAnswer.resolved hv, ?_⟩
      show Represents ⟨s.scopes.bind s.scopes.functionScope name (s.vars.add x).1, (s.vars.add x).2⟩
        ((k.add x).2.bindLowest name (k.add x).1)
      rw [← hv]
      exact hadd.bindLowest name _
  | lookup name => exact ⟨congrArg ScopeAnswer.found (h.lookup name), h⟩

theorem run (h : s.Represents k) (steps : List ScopeStep) :
    (ScopeStep.run ScopeState.step steps s).1 = (ScopeStep.run NameStack.step steps k).1 ∧
      (ScopeStep.run ScopeState.step steps s).2.Represents
        (ScopeStep.run NameStack.step steps k).2 := by
  induction steps generalizing s k with
  | nil => exact ⟨rfl, h⟩
  | cons a steps ih =>
    obtain ⟨hanswer, hnext⟩ := h.step a
    obtain ⟨hanswers, hlast⟩ := ih hnext
    refine ⟨?_, hlast⟩
    rw [ScopeStep.run, ScopeStep.run, hanswer, hanswers]

end Represents

end ScopeState

/-! ## What is gone -/

namespace NameStack

variable {k : NameStack} {v : VarRef}

/-- Some map binds a name to a variable of that number. -/
def Binds (k : NameStack) (id : Nat) : Prop := ∃ m ∈ k.maps, ∃ name v, m name = some v ∧ v.id = id

/-- Different maps bind different variables, all of which are in the table. -/
structure Apart (k : NameStack) : Prop where
  lt : ∀ id, k.Binds id → id < k.vars.length
  maps : k.maps.Pairwise fun m m' =>
    ∀ name name' v v', m name = some v → m' name' = some v' → v.id ≠ v'.id

/-- A variable of the table that no map binds. -/
def Gone (k : NameStack) (id : Nat) : Prop := id < k.vars.length ∧ ¬ k.Binds id

/-- One map binds a name to the next number. -/
structure BindsNew (k : NameStack) (name : String) (k' : NameStack) : Prop where
  vars : ∃ x : Variable, x.name = name ∧ k'.vars = k.vars ++ [x]
  maps : ∃ ms m ms', k.maps = ms ++ m :: ms' ∧
    k'.maps = ms ++ m.bind name ⟨k.vars.length, name⟩ :: ms'

theorem bindTop_new (k : NameStack) (x : Variable) :
    k.BindsNew x.name ((k.add x).2.bindTop x.name (k.add x).1) := by
  cases habove : k.above with
  | nil =>
    refine ⟨⟨x, rfl, by simp [bindTop, add, habove]⟩, [], k.bottom, [], ?_, ?_⟩
    all_goals simp [maps, bindTop, add, habove]
  | cons m ms =>
    refine ⟨⟨x, rfl, by simp [bindTop, add, habove]⟩, [], m, ms ++ [k.bottom], ?_, ?_⟩
    all_goals simp [maps, bindTop, add, habove]

theorem bindLowest_new (k : NameStack) (x : Variable) :
    k.BindsNew x.name ((k.add x).2.bindLowest x.name (k.add x).1) := by
  rcases List.eq_nil_or_concat k.above with habove | ⟨ms, m, habove⟩
  · refine ⟨⟨x, rfl, by simp [bindLowest, add, habove]⟩, [], k.bottom, [], ?_, ?_⟩
    all_goals simp [maps, bindLowest, add, habove]
  · refine ⟨⟨x, rfl, by simp [bindLowest, add, habove]⟩, ms, m, [k.bottom], ?_, ?_⟩
    all_goals simp [maps, bindLowest, add, habove]

/-- A step tells of no variable or of one that is bound, and then it adds no map but an empty one; or
it binds a new variable and tells of that. -/
theorem step_cases (k : NameStack) (a : ScopeStep) :
    ((k.step a).2.vars = k.vars ∧
      ((k.step a).2.maps = .empty :: k.maps ∨ (k.step a).2.maps.Sublist k.maps) ∧
      ∀ v, (k.step a).1.var? = some v → k.Binds v.id) ∨
    ∃ name, (k.step a).1.var? = some ⟨k.vars.length, name⟩ ∧ k.BindsNew name (k.step a).2 := by
  have hfound {name : String} {v : VarRef} (h : k.find? name = some v) : k.Binds v.id := by
    obtain ⟨m, hm, hv⟩ := List.exists_of_findSome?_eq_some h
    exact ⟨m, hm, name, v, hv, rfl⟩
  cases a with
  | push => exact .inl ⟨rfl, .inl rfl, fun v hv => nomatch hv⟩
  | pop =>
    refine .inl ⟨rfl, .inr ?_, fun v hv => nomatch hv⟩
    exact (List.tail_sublist k.above).append_right [k.bottom]
  | declare name type span => exact .inr ⟨name, rfl, k.bindTop_new ⟨name, type, span, false⟩⟩
  | resolve name span =>
    rw [step]
    cases hfind : k.find? name with
    | some v =>
      refine .inl ⟨rfl, .inr (List.Sublist.refl _), fun w hw => ?_⟩
      obtain rfl : v = w := Option.some.inj hw
      exact hfound hfind
    | none => exact .inr ⟨name, rfl, k.bindLowest_new ⟨name, .int, span, true⟩⟩
  | lookup name => exact .inl ⟨rfl, .inr (List.Sublist.refl _), fun v hv => hfound hv⟩

/-- What is bound behind a new binding is the new variable or was bound before. -/
theorem BindsNew.binds {name : String} {k' : NameStack} (h : k.BindsNew name k') {id : Nat}
    (hid : k'.Binds id) : id = k.vars.length ∨ k.Binds id := by
  obtain ⟨-, ms, m, ms', hmaps, hmaps'⟩ := h
  obtain ⟨m', hm', n, v, hv, rfl⟩ := hid
  rw [hmaps', List.mem_append, List.mem_cons] at hm'
  have hold (hmem : m' ∈ k.maps) : k.Binds v.id := ⟨m', hmem, n, v, hv, rfl⟩
  rcases hm' with hm' | rfl | hm'
  · exact .inr (hold (by simp [hmaps, hm']))
  · rw [NameMap.bind] at hv
    split at hv
    · obtain rfl := Option.some.inj hv
      exact .inl rfl
    · exact .inr ⟨m, by simp [hmaps], n, v, hv, rfl⟩
  · exact .inr (hold (by simp [hmaps, hm']))

theorem binds_of_sublist {k' : NameStack} {id : Nat}
    (h : k'.maps = .empty :: k.maps ∨ k'.maps.Sublist k.maps) (hid : k'.Binds id) : k.Binds id := by
  obtain ⟨m, hm, n, v, hv, rfl⟩ := hid
  rcases h with h | h
  · rw [h] at hm
    rcases List.mem_cons.mp hm with rfl | hm
    · cases hv
    · exact ⟨m, hm, n, v, hv, rfl⟩
  · exact ⟨m, h.subset hm, n, v, hv, rfl⟩

theorem BindsNew.length {name : String} {k' : NameStack} (h : k.BindsNew name k') :
    k'.vars.length = k.vars.length + 1 := by
  obtain ⟨⟨x, -, hvars⟩, -⟩ := h
  rw [hvars, List.length_append]
  rfl

/-- A new variable is no other one. -/
theorem BindsNew.apart {name : String} {k' : NameStack} (h : k.BindsNew name k') (hk : k.Apart) :
    k'.Apart := by
  refine ⟨fun id hid => ?_, ?_⟩
  · rw [h.length]
    rcases h.binds hid with rfl | hid
    · exact Nat.lt_succ_self _
    · exact Nat.lt_succ_of_lt (hk.lt id hid)
  · have hlt := hk.lt
    have hpairs := hk.maps
    obtain ⟨-, ms, m, ms', hmaps, hmaps'⟩ := h
    have hold {m' : NameMap} (hm' : m' ∈ k.maps) {n : String} {v : VarRef} (hv : m' n = some v) :
        v.id < k.vars.length := hlt v.id ⟨m', hm', n, v, hv, rfl⟩
    rw [hmaps, List.pairwise_append, List.pairwise_cons] at hpairs
    obtain ⟨hfront, ⟨hm, hrear⟩, hacross⟩ := hpairs
    rw [hmaps', List.pairwise_append, List.pairwise_cons]
    refine ⟨hfront, ⟨fun m' hm' n n' v v' hv hv' => ?_, hrear⟩, fun m' hm' m'' hm'' => ?_⟩
    · rw [NameMap.bind] at hv
      split at hv
      · obtain rfl := Option.some.inj hv
        exact (Nat.ne_of_lt (hold (by simp [hmaps, hm']) hv')).symm
      · exact hm m' hm' n n' v v' hv hv'
    · rcases List.mem_cons.mp hm'' with rfl | hm''
      · intro n n' v v' hv hv'
        rw [NameMap.bind] at hv'
        split at hv'
        · obtain rfl := Option.some.inj hv'
          exact Nat.ne_of_lt (hold (by simp [hmaps, hm']) hv)
        · exact hacross m' hm' m List.mem_cons_self n n' v v' hv hv'
      · exact hacross m' hm' m'' (List.mem_cons_of_mem _ hm'')

theorem Apart.step (h : k.Apart) (a : ScopeStep) : (k.step a).2.Apart := by
  rcases k.step_cases a with ⟨hvars, hmaps, -⟩ | ⟨name, -, hnew⟩
  · refine ⟨fun id hid => ?_, ?_⟩
    · rw [hvars]
      exact h.lt id (binds_of_sublist hmaps hid)
    · rcases hmaps with hmaps | hmaps
      · rw [hmaps]
        exact List.pairwise_cons.mpr ⟨fun _ _ _ _ _ _ hv => (nomatch hv), h.maps⟩
      · exact h.maps.sublist hmaps
  · exact hnew.apart h

theorem apart_fresh : fresh.Apart := by
  refine ⟨?_, List.pairwise_singleton _ _⟩
  rintro id ⟨m, hm, n, v, hv, rfl⟩
  obtain rfl := List.mem_singleton.mp hm
  cases hv

theorem Apart.run (h : k.Apart) (steps : List ScopeStep) :
    (ScopeStep.run NameStack.step steps k).2.Apart := by
  induction steps generalizing k with
  | nil => exact h
  | cons a steps ih => exact ih (h.step a)

/-- What is gone stays so, and no step tells of it. -/
theorem Gone.step {id : Nat} (h : k.Gone id) (a : ScopeStep) :
    (∀ v, (k.step a).1.var? = some v → v.id ≠ id) ∧ (k.step a).2.Gone id := by
  obtain ⟨hlt, hnone⟩ := h
  rcases k.step_cases a with ⟨hvars, hmaps, hold⟩ | ⟨name, htold, hnew⟩
  · refine ⟨fun v hv heq => hnone (heq ▸ hold v hv), hvars ▸ hlt, fun hid => ?_⟩
    exact hnone (binds_of_sublist hmaps hid)
  · refine ⟨fun v hv heq => ?_, ?_, fun hid => ?_⟩
    · rw [htold] at hv
      obtain rfl := Option.some.inj hv
      exact Nat.ne_of_lt hlt heq.symm
    · rw [hnew.length]
      exact Nat.lt_succ_of_lt hlt
    · rcases hnew.binds hid with rfl | hid
      · exact Nat.lt_irrefl _ hlt
      · exact hnone hid

theorem Gone.run {id : Nat} (h : k.Gone id) (steps : List ScopeStep) :
    ∀ told ∈ (ScopeStep.run NameStack.step steps k).1, ∀ v, told.var? = some v → v.id ≠ id := by
  induction steps generalizing k with
  | nil => exact List.forall_mem_nil _
  | cons a steps ih => exact List.forall_mem_cons.mpr ⟨(h.step a).1, ih (h.step a).2⟩

/-- A name that stands for something else behind a closed map was bound in it, and what it stood for
is gone. -/
theorem gone_of_pop {name : String} (h : k.Apart) (hbefore : k.find? name = some v)
    (hafter : (k.step .pop).2.find? name ≠ some v) : (k.step .pop).2.Gone v.id := by
  obtain ⟨m, hm, hv⟩ := List.exists_of_findSome?_eq_some hbefore
  refine ⟨h.lt v.id ⟨m, hm, name, v, hv, rfl⟩, ?_⟩
  have hpairs := h.maps
  cases habove : k.above with
  | nil =>
    have hsame : (k.step .pop).2 = k := by
      show { k with above := k.above.tail } = k
      rw [habove, List.tail_nil, ← habove]
    exact absurd hbefore (hsame ▸ hafter)
  | cons top ms =>
    have hmaps : k.maps = top :: (k.step .pop).2.maps := by
      show k.above ++ [k.bottom] = top :: (k.above.tail ++ [k.bottom])
      rw [habove]
      rfl
    rw [find?, hmaps, List.findSome?_cons] at hbefore
    cases htop : top name with
    | none =>
      rw [htop] at hbefore
      exact absurd hbefore hafter
    | some w =>
      rw [htop] at hbefore
      obtain rfl : w = v := Option.some.inj hbefore
      rw [hmaps, List.pairwise_cons] at hpairs
      rintro ⟨m', hm', n, u, hu, heq⟩
      exact hpairs.1 m' hm' name n w u htop hu heq.symm

end NameStack

/-! ## Runs -/

namespace ScopeState

theorem run_represents (steps : List ScopeStep) :
    (run steps).1 = (NameStack.run steps).1 ∧ (run steps).2.Represents (NameStack.run steps).2 :=
  Represents.fresh.run steps

/-- A step leaves the table as it is, or adds the variable that it tells of. -/
theorem Represents.table {s : ScopeState} {k : NameStack} (h : s.Represents k) (a : ScopeStep) :
    (s.step a).2.vars = s.vars ∨ ∃ x : Variable, (s.step a).1.var? = some ⟨s.vars.size, x.name⟩ ∧
      (s.step a).2.vars = (s.vars.add x).2 := by
  have htable {t u : VarTable} (htu : t.entries.toList = u.entries.toList) : t = u := by
    cases t
    cases u
    exact congrArg VarTable.mk (Array.toList_inj.mp htu)
  obtain ⟨htold, hnext⟩ := h.step a
  rcases k.step_cases a with ⟨hvars, -, -⟩ | ⟨name, hvar, hnew⟩
  · exact .inl (htable (by rw [hnext.vars, hvars, h.vars]))
  · obtain ⟨⟨x, rfl, hvars⟩, -⟩ := hnew
    refine .inr ⟨x, by rw [htold, hvar, h.size], htable ?_⟩
    rw [hnext.vars, hvars, ← h.vars, VarTable.add, Array.toList_push]

theorem Represents.vars_extend {s : ScopeState} {k : NameStack} (h : s.Represents k)
    (steps : List ScopeStep) : s.vars.Extends (ScopeStep.run ScopeState.step steps s).2.vars := by
  induction steps generalizing s k with
  | nil => exact .refl _
  | cons a steps ih =>
    refine VarTable.Extends.trans ?_ (ih (h.step a).2)
    rcases h.table a with hsame | ⟨x, -, hadd⟩
    · rw [hsame]
      exact .refl _
    · rw [hadd]
      exact .add _ x

/-- **Scopes are a stack of name maps.** Whatever is done one after the other with fresh scopes and
an empty table, the answers are those of a stack of name maps, and so is the table. A step leaves the
table as it is, or it adds the variable that it tells of, whose number is the size of the table; all
older entries stay. If a name stands for something else once a scope is closed, then nothing that is
done later tells of the variable that it stood for. -/
theorem run_eq_stack (steps : List ScopeStep) :
    (run steps).1 = (NameStack.run steps).1 ∧
      (run steps).2.vars.entries.toList = (NameStack.run steps).2.vars ∧
      (∀ a, let s := (run steps).2
        (s.step a).2.vars = s.vars ∨
          ∃ x : Variable, (s.step a).1.var? = some ⟨s.vars.size, x.name⟩ ∧
            (s.step a).2.vars = (s.vars.add x).2) ∧
      (∀ more, (run steps).2.vars.Extends (run (steps ++ more)).2.vars) ∧
      ∀ name v more, let s := (run steps).2.scopes
        s.lookup name = some v → s.pop.lookup name ≠ some v →
          ∀ told ∈ (ScopeStep.run step more ((run steps).2.step .pop).2).1,
            ∀ w, told.var? = some w → w.id ≠ v.id := by
  obtain ⟨hanswers, hrep⟩ := run_represents steps
  refine ⟨hanswers, hrep.vars, hrep.table, fun more => ?_, fun name v more hbefore hafter => ?_⟩
  · rw [run, run, ScopeStep.run_append]
    exact hrep.vars_extend more
  · have hpop := (hrep.step .pop).2
    have hgone := NameStack.gone_of_pop (NameStack.apart_fresh.run steps)
      ((hrep.lookup name).symm.trans hbefore) fun h => hafter ((hpop.lookup name).trans h)
    rw [(hpop.run more).1]
    exact hgone.run more

/-- An iterator that is declared again in an inner scope: once that is closed, nothing tells of the
inner variable, and the name stands for the outer one. -/
theorem run_eq_stack_shadowed :
    let steps : List ScopeStep :=
      [.push, .declare "i" .int .none, .push, .declare "i" ⟨.short, 0⟩ .none]
    let s := (run steps).2
    s.scopes.lookup "i" = some ⟨1, "i"⟩ ∧ s.scopes.pop.lookup "i" = some ⟨0, "i"⟩ ∧
      ∀ more, ∀ told ∈ (ScopeStep.run step more (s.step .pop).2).1,
        ∀ w, told.var? = some w → w.id ≠ 1 := by
  intro steps s
  have hinner : s.scopes.lookup "i" = some ⟨1, "i"⟩ := by decide
  have houter : s.scopes.pop.lookup "i" = some ⟨0, "i"⟩ := by decide
  refine ⟨hinner, houter, fun more => ?_⟩
  exact (run_eq_stack steps).2.2.2.2 "i" ⟨1, "i"⟩ more hinner (by rw [houter]; decide)

end ScopeState

end LoopNest
