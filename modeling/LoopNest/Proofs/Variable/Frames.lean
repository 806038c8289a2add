import LoopNest.Variable.Scope

/-!
# Scopes as a stack of frames

Scopes are never taken out of their tree. What can be seen from the open scope is a stack all
the same: its own bindings, then those of the scope around it, and so on.

* `Scopes.frames`: that stack.
* `Scopes.frames_push`, `Scopes.frames_pop`, `Scopes.frames_bind_current`,
  `Scopes.frames_bind_functionScope`: what opening, closing and binding do to the stack.
* `Scopes.lookup_eq`, `Scopes.functionScope_eq`: what is looked for in the stack.
* `Scopes.Extends`: the scopes after some steps that closed what they opened.
-/

namespace LoopNest

/-- The bindings of a scope, the latest one first. -/
abbrev Frame := List (String × VarRef)

namespace Frame

/-- The variable that a name stands for in a stack of frames. -/
def find? (fs : List Frame) (name : String) : Option VarRef := fs.findSome? (List.lookup name)

/-- Binds a name in the innermost frame. -/
def bindInner (b : String × VarRef) : List Frame → List Frame
  | [] => []
  | f :: fs => (b :: f) :: fs

/-- Binds a name in the frame directly before the last one, or in the only one. -/
def bindOuter (b : String × VarRef) : List Frame → List Frame
  | [] => []
  | [f] => [b :: f]
  | [f, g] => [b :: f, g]
  | f :: g :: h :: fs => f :: bindOuter b (g :: h :: fs)

@[simp] theorem find?_cons (f : Frame) (fs : List Frame) (name : String) :
    find? (f :: fs) name = (f.lookup name).or (find? fs name) := by
  rw [find?, List.findSome?_cons]
  cases f.lookup name <;> rfl

end Frame

namespace Scopes

/-- A scope is younger than the one around it, and the open one exists. -/
structure WellFormed (s : Scopes) : Prop where
  current_lt : s.current < s.tree.size
  outer_lt : ∀ i o, s.outer? i = some o → o < i

def frame (s : Scopes) (i : Nat) : Frame := (s.tree[i]?.map Scope.bindings).getD []

/-- The bindings of the open scope and of those around it, the global ones last. -/
def frames (s : Scopes) : List Frame := s.enclosing.map s.frame

/-- The scopes `t` come from `s` by steps that closed all scopes that they opened. -/
structure Extends (s t : Scopes) : Prop where
  current_eq : t.current = s.current
  size_le : s.tree.size ≤ t.tree.size
  outer_eq : ∀ i < s.tree.size, t.outer? i = s.outer? i

theorem Extends.refl (s : Scopes) : s.Extends s := ⟨rfl, Nat.le_refl _, fun _ _ => rfl⟩

theorem Extends.trans {s t u : Scopes} (hst : s.Extends t) (htu : t.Extends u) : s.Extends u :=
  ⟨htu.current_eq.trans hst.current_eq, Nat.le_trans hst.size_le htu.size_le, fun i hi =>
    (htu.outer_eq i (Nat.lt_of_lt_of_le hi hst.size_le)).trans (hst.outer_eq i hi)⟩

theorem wellFormed_global : global.WellFormed := by
  refine ⟨by decide, fun i o h => ?_⟩
  unfold outer? global at h
  rcases i with _ | i <;> simp at h

/-! ## The scopes around a scope -/

variable {s t : Scopes}

/-- The number of a scope is fuel enough for the chain from it. -/
theorem chainFrom_eq (hs : s.WellFormed) {m n i : Nat} (hm : i ≤ m) (hn : i ≤ n) :
    s.chainFrom m i = s.chainFrom n i := by
  have hzero (fuel : Nat) : s.chainFrom fuel 0 = [0] := by
    cases fuel with
    | zero => rfl
    | succ fuel =>
      cases ho : s.outer? 0 with
      | none => simp only [chainFrom, ho]
      | some o => exact absurd (hs.outer_lt 0 o ho) (Nat.not_lt_zero o)
  induction m generalizing n i with
  | zero =>
    obtain rfl := Nat.le_zero.mp hm
    rw [hzero, hzero]
  | succ m ih =>
    cases n with
    | zero =>
      obtain rfl := Nat.le_zero.mp hn
      rw [hzero, hzero]
    | succ n =>
      simp only [chainFrom]
      cases ho : s.outer? i with
      | none => rfl
      | some o =>
        have hlt := hs.outer_lt i o ho
        simp only [ih (by omega : o ≤ m) (by omega : o ≤ n)]

/-- The scope `i` and those around it, the global one last. -/
def around (s : Scopes) (i : Nat) : List Nat := s.chainFrom i i

theorem around_of_none {i : Nat} (h : s.outer? i = none) : s.around i = [i] := by
  unfold around
  cases i <;> simp only [chainFrom, h]

theorem around_of_some (hs : s.WellFormed) {i o : Nat} (h : s.outer? i = some o) :
    s.around i = i :: s.around o := by
  have hlt := hs.outer_lt i o h
  unfold around
  cases i with
  | zero => omega
  | succ i =>
    simp only [chainFrom, h]
    rw [chainFrom_eq hs (by omega : o ≤ i) (Nat.le_refl o)]

theorem around_eq_cons (hs : s.WellFormed) (i : Nat) : ∃ is, s.around i = i :: is := by
  cases h : s.outer? i with
  | none => exact ⟨[], around_of_none h⟩
  | some o => exact ⟨s.around o, around_of_some hs h⟩

/-- The scopes around a scope are older and older. -/
theorem around_sorted (hs : s.WellFormed) (i : Nat) :
    (s.around i).Pairwise (· > ·) ∧ ∀ j ∈ s.around i, j ≤ i := by
  induction i using Nat.strongRecOn with
  | ind i ih =>
    cases h : s.outer? i with
    | none => simp [around_of_none h]
    | some o =>
      have hlt := hs.outer_lt i o h
      obtain ⟨hsorted, hle⟩ := ih o hlt
      rw [around_of_some hs h]
      refine ⟨List.pairwise_cons.mpr ⟨fun j hj => ?_, hsorted⟩, fun j hj => ?_⟩
      · have := hle j hj
        omega
      · rcases List.mem_cons.mp hj with rfl | hj
        · exact Nat.le_refl _
        · have := hle j hj
          omega

/-- The scopes around a scope do not change as long as the scopes up to it keep their places. -/
theorem around_congr (hs : s.WellFormed) (ht : t.WellFormed) {i : Nat}
    (h : ∀ j ≤ i, t.outer? j = s.outer? j) : t.around i = s.around i := by
  induction i using Nat.strongRecOn with
  | ind i ih =>
    have hi := h i (Nat.le_refl i)
    cases ho : s.outer? i with
    | none => rw [around_of_none ho, around_of_none (hi.trans ho)]
    | some o =>
      have hlt := hs.outer_lt i o ho
      rw [around_of_some hs ho, around_of_some ht (hi.trans ho),
        ih o hlt fun j hj => h j (by omega)]

/-! ## Opening and closing -/

theorem outer?_lt_size {i o : Nat} (h : s.outer? i = some o) : i < s.tree.size := by
  rcases Nat.lt_or_ge i s.tree.size with hlt | hge
  · exact hlt
  · rw [outer?, Array.getElem?_eq_none hge] at h
    cases h

theorem outer?_push_of_lt {i : Nat} (h : i < s.tree.size) : s.push.outer? i = s.outer? i := by
  simp only [outer?, push, Array.getElem?_push, Nat.ne_of_lt h, if_false]

theorem outer?_push_size : s.push.outer? s.tree.size = some s.current := by
  simp [outer?, push]

theorem WellFormed.push (hs : s.WellFormed) : s.push.WellFormed := by
  refine ⟨by simp [Scopes.push], fun i o h => ?_⟩
  have hlt := outer?_lt_size h
  have hsize : i < s.tree.size + 1 := by simpa [Scopes.push] using hlt
  rcases Nat.lt_succ_iff_lt_or_eq.mp hsize with hi | rfl
  · exact hs.outer_lt i o (outer?_push_of_lt hi ▸ h)
  · rw [outer?_push_size] at h
    cases h
    exact hs.current_lt

theorem frames_push (hs : s.WellFormed) : s.push.frames = [] :: s.frames := by
  have hcurrent : s.push.current = s.tree.size := rfl
  have hle := (around_sorted hs s.current).2
  have haround : s.push.enclosing = s.tree.size :: s.enclosing := by
    change s.push.around s.push.current = s.tree.size :: s.around s.current
    rw [hcurrent, around_of_some hs.push outer?_push_size,
      around_congr hs hs.push fun j hj => outer?_push_of_lt (by have := hs.current_lt; omega)]
  have hframe : ∀ j ∈ s.enclosing, s.push.frame j = s.frame j := by
    intro j hj
    have hlt : j < s.tree.size := Nat.lt_of_le_of_lt (hle j hj) hs.current_lt
    simp only [frame, push, Array.getElem?_push, Nat.ne_of_lt hlt, if_false]
  rw [frames, haround, List.map_cons, List.map_congr_left hframe]
  simp [frame, push, frames]

theorem WellFormed.pop (hs : s.WellFormed) : s.pop.WellFormed := by
  refine ⟨?_, hs.outer_lt⟩
  change (s.outer? s.current).getD s.current < s.tree.size
  have hlt := hs.current_lt
  cases h : s.outer? s.current with
  | none => exact hlt
  | some o =>
    have := hs.outer_lt _ _ h
    simp only [Option.getD_some]
    omega

theorem frames_eq_cons (hs : s.WellFormed) : ∃ f fs, s.frames = f :: fs := by
  obtain ⟨is, h⟩ := around_eq_cons hs s.current
  have henclosing : s.enclosing = s.current :: is := h
  exact ⟨_, _, by rw [frames, henclosing, List.map_cons]⟩

theorem frames_pop (hs : s.WellFormed) {o : Nat} (h : s.outer? s.current = some o) :
    s.pop.frames = s.frames.tail := by
  have hcurrent : s.pop.current = o := by simp [pop, h]
  have haround : s.pop.enclosing = s.around o := by
    change s.pop.around s.pop.current = s.around o
    rw [hcurrent]
    exact around_congr hs hs.pop fun _ _ => rfl
  have hframes : s.frames = s.frame s.current :: (s.around o).map s.frame := by
    change (s.around s.current).map s.frame = _
    rw [around_of_some hs h, List.map_cons]
  rw [frames, haround, hframes]
  rfl

theorem Extends.outer?_current (h : s.push.Extends t) : t.outer? t.current = some s.current := by
  have hlt : s.tree.size < s.push.tree.size := by simp [push]
  rw [h.current_eq]
  exact (h.outer_eq s.tree.size hlt).trans outer?_push_size

/-- A scope that was opened is closed again, whatever was done in between. -/
theorem Extends.pop (h : s.push.Extends t) : s.Extends t.pop := by
  have hsize : s.push.tree.size = s.tree.size + 1 := by simp [push]
  have hopen := h.outer?_current
  refine ⟨by simp [Scopes.pop, hopen], ?_, fun i hi => ?_⟩
  · have := h.size_le
    change s.tree.size ≤ t.tree.size
    omega
  · exact (h.outer_eq i (by omega)).trans (outer?_push_of_lt hi)

theorem Extends.frames_pop (ht : t.WellFormed) (h : s.push.Extends t) :
    t.pop.frames = t.frames.tail :=
  Scopes.frames_pop ht h.outer?_current

/-! ## Binding -/

section

variable (i : Nat) (name : String) (v : VarRef)

theorem outer?_bind (j : Nat) : (s.bind i name v).outer? j = s.outer? j := by
  simp only [outer?, bind, Array.getElem?_modify]
  split
  · cases s.tree[j]? <;> rfl
  · rfl

theorem WellFormed.bind (hs : s.WellFormed) : (s.bind i name v).WellFormed :=
  ⟨by simpa [Scopes.bind] using hs.current_lt, fun j o h =>
    hs.outer_lt j o (outer?_bind i name v j ▸ h)⟩

theorem Extends.bind : s.Extends (s.bind i name v) :=
  ⟨rfl, by simp [Scopes.bind], fun j _ => outer?_bind i name v j⟩

theorem enclosing_bind (hs : s.WellFormed) : (s.bind i name v).enclosing = s.enclosing :=
  around_congr hs (hs.bind i name v) fun j _ => outer?_bind i name v j

theorem frame_bind {i : Nat} (hi : i < s.tree.size) (j : Nat) :
    (s.bind i name v).frame j = if j = i then (name, v) :: s.frame j else s.frame j := by
  simp only [frame, bind, Array.getElem?_modify]
  by_cases h : j = i
  · subst h
    rw [if_pos rfl, if_pos rfl, Array.getElem?_eq_getElem hi]
    rfl
  · rw [if_neg (Ne.symm h), if_neg h]

theorem frames_bind (hs : s.WellFormed) {i : Nat} (hi : i < s.tree.size) :
    (s.bind i name v).frames =
      s.enclosing.map fun j => if j = i then (name, v) :: s.frame j else s.frame j := by
  rw [frames, enclosing_bind i name v hs]
  exact List.map_congr_left fun j _ => frame_bind name v hi j

theorem frames_bind_current (hs : s.WellFormed) :
    (s.bind s.current name v).frames = Frame.bindInner (name, v) s.frames := by
  obtain ⟨is, his⟩ := around_eq_cons hs s.current
  have henclosing : s.enclosing = s.current :: is := his
  have hsorted : (s.current :: is).Pairwise (· > ·) := his ▸ (around_sorted hs s.current).1
  have hrest : ∀ j ∈ is, (if j = s.current then (name, v) :: s.frame j else s.frame j) =
      s.frame j := fun j hj => if_neg (Nat.ne_of_lt ((List.pairwise_cons.mp hsorted).1 j hj))
  rw [frames_bind name v hs hs.current_lt, frames, henclosing, List.map_cons, List.map_cons,
    if_pos rfl, List.map_congr_left hrest]
  rfl

theorem belowGlobal_mem {i : Nat} {is : List Nat} : belowGlobal (i :: is) ∈ i :: is := by
  induction is generalizing i with
  | nil => simp [belowGlobal]
  | cons j is ih =>
    cases is with
    | nil => simp [belowGlobal]
    | cons k is => exact List.mem_cons_of_mem i ih

theorem bindOuter_map (b : String × VarRef) (f : Nat → Frame) {is : List Nat}
    (his : is.Pairwise (· > ·)) :
    Frame.bindOuter b (is.map f) =
      is.map fun j => if j = belowGlobal is then b :: f j else f j := by
  induction is with
  | nil => rfl
  | cons i is ih =>
    obtain ⟨hi, his⟩ := List.pairwise_cons.mp his
    match is, ih his, hi with
    | [], _, _ => simp [Frame.bindOuter, belowGlobal]
    | [j], _, hi =>
      have hne : j ≠ i := Nat.ne_of_lt (hi j List.mem_cons_self)
      simp [Frame.bindOuter, belowGlobal, hne]
    | j :: k :: is, ih, hi =>
      have hmem : belowGlobal (j :: k :: is) ∈ j :: k :: is := belowGlobal_mem
      have hne : i ≠ belowGlobal (j :: k :: is) := (Nat.ne_of_lt (hi _ hmem)).symm
      have hbelow : belowGlobal (i :: j :: k :: is) = belowGlobal (j :: k :: is) := rfl
      have hstep : Frame.bindOuter b ((i :: j :: k :: is).map f) =
          f i :: Frame.bindOuter b ((j :: k :: is).map f) := rfl
      rw [hbelow, hstep, ih, List.map_cons (l := j :: k :: is), if_neg hne]

theorem functionScope_lt (hs : s.WellFormed) : s.functionScope < s.tree.size := by
  obtain ⟨is, his⟩ := around_eq_cons hs s.current
  have hmem : s.functionScope ∈ s.around s.current := by
    change belowGlobal (s.around s.current) ∈ s.around s.current
    rw [his]
    exact belowGlobal_mem
  exact Nat.lt_of_le_of_lt ((around_sorted hs s.current).2 _ hmem) hs.current_lt

theorem frames_bind_functionScope (hs : s.WellFormed) :
    (s.bind s.functionScope name v).frames = Frame.bindOuter (name, v) s.frames := by
  rw [frames_bind name v hs (functionScope_lt hs)]
  exact (bindOuter_map (name, v) s.frame (around_sorted hs s.current).1).symm

end

/-! ## Looking up -/

theorem find?_eq (name : String) (i : Nat) : s.find? name i = (s.frame i).lookup name := by
  unfold Scopes.find? frame Scope.find?
  cases s.tree[i]? <;> rfl

theorem lookup_eq (name : String) : s.lookup name = Frame.find? s.frames name := by
  rw [lookup, frames, Frame.find?, List.findSome?_map]
  congr 1
  funext i
  exact find?_eq name i

theorem find?_current (hs : s.WellFormed) (name : String) :
    s.find? name s.current = (s.frames.headD []).lookup name := by
  obtain ⟨is, his⟩ := around_eq_cons hs s.current
  have henclosing : s.enclosing = s.current :: is := his
  rw [find?_eq, frames, henclosing]
  rfl

end Scopes

end LoopNest
