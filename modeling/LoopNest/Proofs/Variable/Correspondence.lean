import Mathlib.Data.List.Forall2
import LoopNest.Proofs.Variable.Context

/-!
# Corresponding variables

Two texts that use the same names number their variables differently. If one text leaves out some
uses of names, then its variables correspond to those of the other one all the same, but for
implicit variables that it does not have, or has later.

* `Pairing`: which variables correspond to one another, and which of them have one type.
* `Pairing.Lasting`: what holds of two results stays when pairs are added.
* `Context.Follows`: names stand for corresponding variables; where a name has an implicit variable
  in a function, it may stand for nothing in the other text.
* `Context.Follows.resolve`, `Context.Follows.declare`: a name is used or declared in both texts.
* `Context.Follows.drop`, `Context.Follows.late`: a name is used in one of them only.
-/

namespace LoopNest

/-! ## Pairings -/

/-- The variables of one text that correspond to variables of another one. -/
structure Pairing where
  pairs : Nat → Nat → Prop
  /-- The pairs of variables that were declared with one type. -/
  typed : Nat → Nat → Prop

namespace Pairing

def empty : Pairing := ⟨fun _ _ => False, fun _ _ => False⟩

/-- One more pair, of one type if `sameType` holds. -/
def add (K : Pairing) (i j : Nat) (sameType : Prop) : Pairing :=
  ⟨fun a b => K.pairs a b ∨ (a = i ∧ b = j), fun a b => K.typed a b ∨ (sameType ∧ a = i ∧ b = j)⟩

/-- The pairs of `K` are pairs of `L` too. -/
structure Le (K L : Pairing) : Prop where
  pairs : ∀ i j, K.pairs i j → L.pairs i j
  typed : ∀ i j, K.typed i j → L.typed i j

theorem Le.refl (K : Pairing) : K.Le K := ⟨fun _ _ h => h, fun _ _ h => h⟩

theorem Le.trans {K L M : Pairing} (h : K.Le L) (h' : L.Le M) : K.Le M :=
  ⟨fun i j hij => h'.pairs i j (h.pairs i j hij), fun i j hij => h'.typed i j (h.typed i j hij)⟩

theorem le_add (K : Pairing) (i j : Nat) (sameType : Prop) : K.Le (K.add i j sameType) :=
  ⟨fun _ _ h => .inl h, fun _ _ h => .inl h⟩

theorem add_self (K : Pairing) (i j : Nat) (sameType : Prop) : (K.add i j sameType).pairs i j :=
  .inr ⟨rfl, rfl⟩

/-- What holds of two results stays when there are more pairs of variables. -/
structure Lasting {α α' : Type} (Q : Pairing → α → α' → Prop) : Prop where
  mono : ∀ {K L a a'}, K.Le L → Q K a a' → Q L a a'

theorem Lasting.option {α α' : Type} {Q : Pairing → α → α' → Prop} (h : Lasting Q) :
    Lasting fun L => Option.Rel (Q L) := by
  refine ⟨fun hle ho => ?_⟩
  cases ho with
  | none => exact .none
  | some hq => exact .some (h.mono hle hq)

/-- The references stand for corresponding variables. -/
def Refs (K : Pairing) (v w : VarRef) : Prop := K.pairs v.id w.id

end Pairing

/-! ## What a name is bound to, frame by frame -/

namespace Context

/-- The bindings of a name, from the innermost frame to the global one. -/
def column (c : Context) (name : String) : List (Option VarRef) := c.frames.map (List.lookup name)

theorem find?_eq_column (c : Context) (name : String) :
    c.find? name = (c.column name).findSome? id := by
  rw [column, List.findSome?_map]
  rfl

theorem column_push (c : Context) (name : String) : c.push.column name = none :: c.column name :=
  rfl

theorem column_pop (c : Context) (name : String) : c.pop.column name = (c.column name).tail :=
  List.map_tail

end Context

namespace Frame

variable {name : String} {v : VarRef} {fs : List Frame}

theorem lookup_cons_ne {name' : String} (hne : name' ≠ name) (f : Frame) :
    List.lookup name' ((name, v) :: f) = List.lookup name' f := by
  have hbeq : (name' == name) = false := beq_false_of_ne hne
  simp only [List.lookup_cons, hbeq]

theorem column_bindInner {o : Option VarRef} {os : List (Option VarRef)}
    (h : fs.map (List.lookup name) = o :: os) :
    (bindInner (name, v) fs).map (List.lookup name) = some v :: os := by
  cases fs with
  | nil => cases h
  | cons f fs =>
    obtain ⟨-, rfl⟩ := List.cons.inj h
    rw [bindInner, List.map_cons, List.lookup_cons_self]

theorem column_bindInner_ne {name' : String} (hne : name' ≠ name) :
    (bindInner (name, v) fs).map (List.lookup name') = fs.map (List.lookup name') := by
  cases fs with
  | nil => rfl
  | cons f fs => rw [bindInner, List.map_cons, List.map_cons, lookup_cons_ne hne]

/-- A name is bound in the only frame, or in the one in front of the last one. -/
theorem column_bindOuter_one {o : Option VarRef} (h : fs.map (List.lookup name) = [o]) :
    (bindOuter (name, v) fs).map (List.lookup name) = [some v] := by
  obtain ⟨f, rfl, -⟩ := List.map_eq_singleton_iff.mp h
  rw [bindOuter, List.map_cons, List.lookup_cons_self, List.map_nil]

theorem column_bindOuter_two {os : List (Option VarRef)} {o o' : Option VarRef}
    (h : fs.map (List.lookup name) = os ++ [o, o']) :
    (bindOuter (name, v) fs).map (List.lookup name) = os ++ [some v, o'] := by
  induction os generalizing fs with
  | nil =>
    obtain ⟨f, fs, rfl, -, h⟩ := List.map_eq_cons_iff.mp h
    obtain ⟨g, rfl, hg⟩ := List.map_eq_singleton_iff.mp h
    rw [bindOuter, List.map_cons, List.lookup_cons_self, List.map_cons, hg]
    rfl
  | cons o₁ os ih =>
    obtain ⟨f, fs, rfl, ho₁, h⟩ := List.map_eq_cons_iff.mp h
    have h : fs.map (List.lookup name) = os ++ [o, o'] := h
    obtain ⟨g, k, fs, rfl⟩ : ∃ g k fs', fs = g :: k :: fs' := by
      have hlength := congrArg List.length h
      rw [List.length_map, List.length_append, List.length_cons, List.length_singleton] at hlength
      rcases fs with _ | ⟨g, _ | ⟨k, fs⟩⟩
      · rw [List.length_nil] at hlength; omega
      · rw [List.length_singleton] at hlength; omega
      · exact ⟨g, k, fs, rfl⟩
    rw [bindOuter, List.map_cons, ih h, ho₁, List.cons_append]

theorem column_bindOuter_ne {name' : String} (hne : name' ≠ name) :
    (bindOuter (name, v) fs).map (List.lookup name') = fs.map (List.lookup name') := by
  refine Context.bindOuter_induction (P := fun fs gs =>
    gs.map (List.lookup name') = fs.map (List.lookup name')) (name, v) rfl ?_ ?_ ?_ fs
  · exact fun f => by rw [List.map_cons, List.map_cons, lookup_cons_ne hne]
  · intro f g
    rw [List.map_cons, lookup_cons_ne hne]
    rfl
  · exact fun f fs ih => by rw [List.map_cons, ih, List.map_cons]

end Frame

/-! ## Columns that follow one another -/

/-- An `int` that corresponds to nothing. -/
def Pairing.Missing (K : Pairing) (vars : VarTable) (v : VarRef) : Prop :=
  vars.type? v.id = some .int ∧ ∀ j, ¬ K.pairs v.id j

/-- In every frame a name is bound to corresponding variables or in neither text, but that a missing
variable may be bound in the frame of the function. -/
def Pairing.Columns (K : Pairing) (vars : VarTable) (as bs : List (Option VarRef)) : Prop :=
  List.Forall₂ (Option.Rel K.Refs) as bs ∨
    ∃ os ps v, as = os ++ [some v, none] ∧ bs = ps ++ [none, none] ∧
      List.Forall₂ (Option.Rel K.Refs) os ps ∧ K.Missing vars v

namespace Pairing

variable {K L : Pairing} {vars vars' : VarTable} {as bs : List (Option VarRef)}

theorem rel_mono (h : K.Le L) {o p : Option VarRef} (ho : Option.Rel K.Refs o p) :
    Option.Rel L.Refs o p := by
  cases ho with
  | some hvw => exact .some (h.pairs _ _ hvw)
  | none => exact .none

theorem forall₂_mono (h : K.Le L) (has : List.Forall₂ (Option.Rel K.Refs) as bs) :
    List.Forall₂ (Option.Rel L.Refs) as bs :=
  has.imp fun _ _ => rel_mono h

theorem Columns.mono (h : K.Columns vars as bs) (hle : K.Le L)
    (hmissing : ∀ v, some v ∈ as → K.Missing vars v → L.Missing vars' v) :
    L.Columns vars' as bs := by
  rcases h with h | ⟨os, ps, v, rfl, rfl, hos, hv⟩
  · exact .inl (forall₂_mono hle h)
  · exact .inr ⟨os, ps, v, rfl, rfl, forall₂_mono hle hos, hmissing v (by simp) hv⟩

theorem Columns.length_eq (h : K.Columns vars as bs) : as.length = bs.length := by
  rcases h with h | ⟨os, ps, v, rfl, rfl, hos, _⟩
  · exact h.length_eq
  · simp [hos.length_eq]

theorem Columns.cons_none (h : K.Columns vars as bs) :
    K.Columns vars (none :: as) (none :: bs) := by
  rcases h with h | ⟨os, ps, v, rfl, rfl, hos, hv⟩
  · exact .inl (.cons .none h)
  · exact .inr ⟨none :: os, none :: ps, v, rfl, rfl, .cons .none hos, hv⟩

theorem Columns.tail (h : K.Columns vars as bs) : K.Columns vars as.tail bs.tail := by
  rcases h with h | ⟨os, ps, v, rfl, rfl, hos, hv⟩
  · cases h with
    | nil => exact .inl .nil
    | cons _ h => exact .inl h
  · cases hos with
    | nil => exact .inl (.cons .none .nil)
    | cons _ hos => exact .inr ⟨_, _, v, rfl, rfl, hos, hv⟩

theorem findSome?_rel (h : List.Forall₂ (Option.Rel K.Refs) as bs) :
    Option.Rel K.Refs (as.findSome? id) (bs.findSome? id) := by
  induction h with
  | nil => exact .none
  | cons ho _ ih =>
    cases ho with
    | some hvw => exact .some hvw
    | none => exact ih

/-- The name stands for corresponding variables or for nothing; or it stands for a missing one. -/
theorem Columns.findSome?_cases (h : K.Columns vars as bs) :
    Option.Rel K.Refs (as.findSome? id) (bs.findSome? id) ∨
      ∃ v, as.findSome? id = some v ∧ bs.findSome? id = none ∧ K.Missing vars v ∧
        ∃ os ps, as = os ++ [some v, none] ∧ bs = ps ++ [none, none] ∧
          List.Forall₂ (Option.Rel K.Refs) os ps := by
  rcases h with h | ⟨os, ps, v, rfl, rfl, hos, hv⟩
  · exact .inl (findSome?_rel h)
  · rw [List.findSome?_append, List.findSome?_append]
    have hrel := findSome?_rel hos
    generalize os.findSome? id = o at hrel
    generalize ps.findSome? id = p at hrel
    cases hrel with
    | some hvw => exact .inl (.some hvw)
    | none => exact .inr ⟨v, rfl, rfl, hv, os, ps, rfl, rfl, hos⟩

end Pairing

/-! ## Contexts that follow one another -/

/-- The name of the variable of that number. -/
def VarTable.name? (vars : VarTable) (id : Nat) : Option String := (vars.get? id).map Variable.name

/-- Names stand for corresponding variables in `d` as in `c`, up to missing ones. If `exact` holds
then all corresponding variables were declared with one type. -/
structure Context.Follows (exact : Prop) (K : Pairing) (c d : Context) : Prop where
  left : c.Sound
  right : d.Sound
  unique : ∀ i j i' j', K.pairs i j → K.pairs i' j' → (i = i' ↔ j = j')
  lt_size : ∀ i j, K.pairs i j → i < c.vars.size ∧ j < d.vars.size
  named : ∀ i j, K.pairs i j → c.vars.name? i = d.vars.name? j
  typed : ∀ i j, K.typed i j → K.pairs i j ∧ c.vars.type? i = d.vars.type? j
  all_typed : exact → ∀ i j, K.pairs i j → K.typed i j
  columns : ∀ name, K.Columns c.vars (c.column name) (d.column name)

namespace Context

theorem lt_size_of_type? {vars : VarTable} {id : Nat} {type : VarType}
    (h : vars.type? id = some type) : id < vars.size := by
  obtain ⟨x, hx, _⟩ := Option.map_eq_some_iff.mp h
  exact (Array.getElem?_eq_some_iff.mp hx).1

theorem Extends.type?_eq {c c' : Context} (h : c.Extends c') {id : Nat} (hid : id < c.vars.size) :
    c'.vars.type? id = c.vars.type? id := by
  rw [VarTable.type?, VarTable.type?, h.get?_eq id hid]

/-- A name that stands for nothing is bound to a new `int`. -/
theorem resolves_implicit {c c' : Context} {v : VarRef} (h : c.Resolves v c')
    (hnone : c.find? v.name = none) :
    v.id = c.vars.size ∧ c'.vars.type? v.id = some .int ∧
      ∃ span, c' = ⟨(c.vars.declareImplicit v.name span).2,
        Frame.bindOuter (v.name, v) c.frames⟩ := by
  rcases resolves_cases h with ⟨hfind, _⟩ | ⟨_, hid, span, rfl⟩
  · rw [hnone] at hfind
    cases hfind
  · refine ⟨hid, ?_, span, rfl⟩
    rw [VarTable.type?, hid, VarTable.declareImplicit, VarTable.get?_add_self]
    rfl

theorem Declares.name?_eq {c c' : Context} {v : VarRef} {type : VarType} (h : c.Declares v type c') :
    c'.vars.name? v.id = some v.name := by
  obtain ⟨_, hid, span, rfl⟩ := declares_cases h
  rw [VarTable.name?, hid, VarTable.declare, VarTable.get?_add_self]
  rfl

theorem Resolves.name?_eq {c c' : Context} {v : VarRef} (h : c.Resolves v c') (hc : c.Sound) :
    c'.vars.name? v.id = some v.name := by
  rcases resolves_cases h with ⟨hfind, rfl⟩ | ⟨_, hid, span, rfl⟩
  · exact (find?_spec hc hfind).2
  · rw [VarTable.name?, hid, VarTable.declareImplicit, VarTable.get?_add_self]
    rfl

namespace Follows

variable {exact : Prop} {K : Pairing} {c c' d d' : Context} {v w : VarRef} {name : String}

theorem initial (exact : Prop) : Follows exact .empty Context.initial Context.initial :=
  ⟨.initial, .initial, fun _ _ _ _ h => h.elim, fun _ _ h => h.elim, fun _ _ h => h.elim,
    fun _ _ h => h.elim, fun _ _ _ h => h.elim, fun _ => .inl (.cons .none .nil)⟩

theorem push (h : Follows exact K c d) : Follows exact K c.push d.push :=
  ⟨h.left.push, h.right.push, h.unique, h.lt_size, h.named, h.typed, h.all_typed,
    fun name => (h.columns name).cons_none⟩

theorem length_frames (h : Follows exact K c d) : c.frames.length = d.frames.length := by
  have hlength := (h.columns "").length_eq
  rwa [column, column, List.length_map, List.length_map] at hlength

theorem pop (h : Follows exact K c d) (hlength : 2 ≤ c.frames.length) :
    Follows exact K c.pop d.pop := by
  have hne {fs : List Frame} (hfs : 2 ≤ fs.length) : fs.tail ≠ [] := by
    intro hnil
    have htail := congrArg List.length hnil
    rw [List.length_tail, List.length_nil] at htail
    omega
  refine ⟨h.left.pop (hne hlength), h.right.pop (hne (h.length_frames ▸ hlength)), h.unique,
    h.lt_size, h.named, h.typed, h.all_typed, fun name => ?_⟩
  rw [column_pop, column_pop]
  exact (h.columns name).tail

/-- More variables, and one more pair of them. -/
theorem add {i j : Nat} {sameType : Prop} (h : Follows exact K c d) (hc : c.Extends c')
    (hd : d.Extends d') (hleft : c'.Sound) (hright : d'.Sound) (hi : ∀ j', ¬ K.pairs i j')
    (hj : ∀ i', ¬ K.pairs i' j) (hlt : i < c'.vars.size ∧ j < d'.vars.size)
    (hnamed : c'.vars.name? i = d'.vars.name? j)
    (htyped : sameType → c'.vars.type? i = d'.vars.type? j) (hexact : exact → sameType)
    (hcolumns : ∀ name,
      (K.add i j sameType).Columns c'.vars (c'.column name) (d'.column name)) :
    Follows exact (K.add i j sameType) c' d' := by
  refine ⟨hleft, hright, ?_, ?_, ?_, ?_, ?_, hcolumns⟩
  · rintro a b a' b' (hab | ⟨rfl, rfl⟩) (hab' | ⟨rfl, rfl⟩)
    · exact h.unique a b a' b' hab hab'
    · constructor
      · rintro rfl
        exact absurd hab (hi b)
      · rintro rfl
        exact absurd hab (hj a)
    · constructor
      · rintro rfl
        exact absurd hab' (hi b')
      · rintro rfl
        exact absurd hab' (hj a')
    · simp
  · rintro a b (hab | ⟨rfl, rfl⟩)
    · obtain ⟨ha, hb⟩ := h.lt_size a b hab
      exact ⟨Nat.lt_of_lt_of_le ha hc.size_le, Nat.lt_of_lt_of_le hb hd.size_le⟩
    · exact hlt
  · rintro a b (hab | ⟨rfl, rfl⟩)
    · obtain ⟨ha, hb⟩ := h.lt_size a b hab
      rw [VarTable.name?, VarTable.name?, hc.get?_eq a ha, hd.get?_eq b hb]
      exact h.named a b hab
    · exact hnamed
  · rintro a b (hab | ⟨hsame, rfl, rfl⟩)
    · obtain ⟨hpairs, htype⟩ := h.typed a b hab
      obtain ⟨ha, hb⟩ := h.lt_size a b hpairs
      exact ⟨.inl hpairs, by rw [hc.type?_eq ha, hd.type?_eq hb, htype]⟩
    · exact ⟨K.add_self a b sameType, htyped hsame⟩
  · rintro hex a b (hab | ⟨rfl, rfl⟩)
    · exact .inl (h.all_typed hex a b hab)
    · exact .inr ⟨hexact hex, rfl, rfl⟩

/-- A binding of a name is one of a variable with that name. -/
theorem mem_column (hc : c.Sound) (hv : some v ∈ c.column name) :
    v.id < c.vars.size ∧ (c.vars.get? v.id).map Variable.name = some name := by
  obtain ⟨f, hf, hlookup⟩ := List.mem_map.mp hv
  obtain ⟨_, hget⟩ := hc.binding f hf (name, v) (mem_of_lookup hlookup)
  obtain ⟨x, hx, _⟩ := Option.map_eq_some_iff.mp hget
  exact ⟨(Array.getElem?_eq_some_iff.mp hx).1, hget⟩

/-- A name whose variables are not those of the new pair is bound as before. -/
theorem columns_add {i j : Nat} {sameType : Prop} (h : Follows exact K c d) (hc : c.Extends c')
    (hne : ∀ v, some v ∈ c.column name → v.id ≠ i) :
    (K.add i j sameType).Columns c'.vars (c.column name) (d.column name) := by
  refine (h.columns name).mono (K.le_add i j sameType) fun v hv hmissing => ⟨?_, ?_⟩
  · rw [hc.type?_eq (lt_size_of_type? hmissing.1)]
    exact hmissing.1
  · rintro b (hb | ⟨heq, _⟩)
    · exact hmissing.2 b hb
    · exact hne v hv heq

theorem not_pairs_size (h : Follows exact K c d) :
    (∀ j, ¬ K.pairs c.vars.size j) ∧ ∀ i, ¬ K.pairs i d.vars.size :=
  ⟨fun j hj => Nat.lt_irrefl _ (h.lt_size _ j hj).1,
    fun i hi => Nat.lt_irrefl _ (h.lt_size i _ hi).2⟩

theorem headD_column (c : Context) (name : String) (hc : c.Sound) :
    ∃ os, c.column name = (c.frames.headD []).lookup name :: os := by
  cases hframes : c.frames with
  | nil => exact absurd hframes hc.frames_ne
  | cons f fs => exact ⟨fs.map (List.lookup name), by rw [column, hframes]; rfl⟩

/-! ## Names that are declared in both texts -/

theorem free (h : Follows exact K c d) (hfree : (c.frames.headD []).lookup name = none) :
    (d.frames.headD []).lookup name = none := by
  obtain ⟨as, has⟩ := headD_column c name h.left
  obtain ⟨bs, hbs⟩ := headD_column d name h.right
  have hcolumns := h.columns name
  rw [has, hbs, hfree] at hcolumns
  generalize (d.frames.headD []).lookup name = o at hcolumns
  rcases hcolumns with hrel | ⟨os, ps, v, hos, hps, hrel, _⟩
  · obtain ⟨ho, -⟩ := List.forall₂_cons.mp hrel
    cases ho
    rfl
  · cases hrel with
    | nil => cases hos
    | cons ho _ =>
      obtain ⟨rfl, -⟩ := List.cons.inj hos
      obtain ⟨rfl, -⟩ := List.cons.inj hps
      cases ho
      rfl

theorem declare {type type' : VarType} (h : Follows exact K c d) (hv : c.Declares v type c')
    (hw : d.Declares w type' d') (hname : v.name = w.name) (hexact : exact → type = type') :
    Follows exact (K.add v.id w.id (type = type')) c' d' := by
  have hc := hv.extends
  have hd := hw.extends
  have hleft := hv.sound h.left
  have hright := hw.sound h.right
  obtain ⟨_, hltv, htypev⟩ := hv.get?
  obtain ⟨_, hltw, htypew⟩ := hw.get?
  have hnamev := hv.name?_eq
  have hnamew := hw.name?_eq
  obtain ⟨hfree, hid, span, rfl⟩ := declares_cases hv
  obtain ⟨hfree', hid', span', rfl⟩ := declares_cases hw
  refine h.add hc hd hleft hright (hid ▸ h.not_pairs_size.1) (hid' ▸ h.not_pairs_size.2)
    ⟨hltv, hltw⟩ (by rw [hnamev, hnamew, hname]) (fun hsame => by rw [htypev, htypew, hsame])
    hexact fun name => ?_
  have hnew : ∀ u, some u ∈ c.column name → u.id ≠ v.id := fun u hu heq =>
    Nat.lt_irrefl _ (hid ▸ heq ▸ (mem_column h.left hu).1)
  have hcolumns : (K.add v.id w.id (type = type')).Columns
      (c.vars.declare v.name type span).2 (c.column name) (d.column name) :=
    h.columns_add hc hnew
  by_cases hsame : name = v.name
  · subst hsame
    obtain ⟨as, has⟩ := headD_column c v.name h.left
    obtain ⟨bs, hbs⟩ := headD_column d v.name h.right
    have hpair : (K.add v.id w.id (type = type')).Refs v w := K.add_self _ _ _
    have hleft : (⟨(c.vars.declare v.name type span).2,
        Frame.bindInner (v.name, v) c.frames⟩ : Context).column v.name = some v :: as :=
      Frame.column_bindInner has
    have hright : (⟨(d.vars.declare w.name type' span').2,
        Frame.bindInner (w.name, w) d.frames⟩ : Context).column v.name = some w :: bs := by
      rw [hname] at hbs ⊢
      exact Frame.column_bindInner hbs
    rw [hfree] at has
    rw [← hname] at hfree'
    rw [hfree'] at hbs
    rw [hleft, hright]
    rw [has, hbs] at hcolumns
    rcases hcolumns with hrel | ⟨os, ps, u, hos, hps, hrel, hu⟩
    · exact .inl (.cons (.some hpair) (List.forall₂_cons.mp hrel).2)
    · cases hrel with
      | nil => cases hos
      | cons _ hrel =>
        obtain ⟨-, rfl⟩ := List.cons.inj hos
        obtain ⟨-, rfl⟩ := List.cons.inj hps
        exact .inr ⟨some v :: _, some w :: _, u, rfl, rfl, .cons (.some hpair) hrel, hu⟩
  · have hother : (⟨(c.vars.declare v.name type span).2,
        Frame.bindInner (v.name, v) c.frames⟩ : Context).column name = c.column name :=
      Frame.column_bindInner_ne hsame
    have hother' : (⟨(d.vars.declare w.name type' span').2,
        Frame.bindInner (w.name, w) d.frames⟩ : Context).column name = d.column name :=
      Frame.column_bindInner_ne (hname ▸ hsame)
    rw [hother, hother']
    exact hcolumns

/-! ## Names that are used -/

theorem find?_rel (h : Follows exact K c d) (name : String) :
    Option.Rel K.Refs (c.find? name) (d.find? name) ∨
      ∃ v, c.find? name = some v ∧ d.find? name = none ∧ K.Missing c.vars v ∧
        ∃ os ps, c.column name = os ++ [some v, none] ∧ d.column name = ps ++ [none, none] ∧
          List.Forall₂ (Option.Rel K.Refs) os ps := by
  rw [find?_eq_column, find?_eq_column]
  exact (h.columns name).findSome?_cases

theorem find?_none (h : Follows exact K c d) (hnone : c.find? name = none) :
    d.find? name = none := by
  rcases h.find?_rel name with hrel | ⟨v, hv, _⟩
  · rw [hnone] at hrel
    generalize d.find? name = o at hrel
    cases hrel
    rfl
  · rw [hnone] at hv
    cases hv

theorem column_of_none (hnone : c.find? name = none) :
    c.column name = List.replicate c.frames.length none := by
  rw [find?_eq_column, List.findSome?_eq_none_iff] at hnone
  refine List.eq_replicate_iff.mpr ⟨by rw [column, List.length_map], fun o ho => hnone o ho⟩

/-- Where a name without a binding is bound: in the only frame, or in the one before the last. -/
theorem column_bindOuter (hc : c.Sound) (hnone : c.find? name = none) (vars : VarTable) :
    (c.frames.length = 1 ∧
      (⟨vars, Frame.bindOuter (name, v) c.frames⟩ : Context).column name = [some v]) ∨
    ∃ n, c.frames.length = n + 2 ∧
      (⟨vars, Frame.bindOuter (name, v) c.frames⟩ : Context).column name =
        List.replicate n none ++ [some v, none] := by
  have hcolumn := column_of_none hnone
  have hne := List.length_pos_of_ne_nil hc.frames_ne
  generalize hlength : c.frames.length = n at hcolumn hne
  match n with
  | 1 => exact .inl ⟨rfl, Frame.column_bindOuter_one hcolumn⟩
  | n + 2 =>
    have hsplit : List.replicate (n + 2) (none : Option VarRef) =
        List.replicate n none ++ [none, none] := List.replicate_add n 2 none
    rw [hsplit] at hcolumn
    exact .inr ⟨n, rfl, Frame.column_bindOuter_two hcolumn⟩

theorem forall₂_replicate (K : Pairing) (n : Nat) :
    List.Forall₂ (Option.Rel K.Refs) (List.replicate n none) (List.replicate n none) := by
  induction n with
  | zero => exact .nil
  | succ n ih => exact .cons .none ih

/-- A name without a binding is bound to a new implicit variable, in both texts. -/
theorem implicit (h : Follows exact K c d) (hv : c.Resolves v c') (hw : d.Resolves w d')
    (hname : v.name = w.name) (hnone : c.find? v.name = none) :
    Follows exact (K.add v.id w.id True) c' d' := by
  have hnone' : d.find? v.name = none := h.find?_none hnone
  have hc := hv.extends
  have hd := hw.extends
  have hleft := hv.sound h.left
  have hright := hw.sound h.right
  have hltv := hv.lt_size h.left
  have hltw := hw.lt_size h.right
  have hnamev := hv.name?_eq h.left
  have hnamew := hw.name?_eq h.right
  obtain ⟨hid, htypev, span, rfl⟩ := resolves_implicit hv hnone
  obtain ⟨hid', htypew, span', rfl⟩ := resolves_implicit hw (hname ▸ hnone')
  refine h.add hc hd hleft hright (hid ▸ h.not_pairs_size.1) (hid' ▸ h.not_pairs_size.2)
    ⟨hltv, hltw⟩ (by rw [hnamev, hnamew, hname]) (fun _ => by rw [htypev, htypew])
    (fun _ => trivial) fun name => ?_
  by_cases hsame : name = v.name
  · subst hsame
    have hpair : (K.add v.id w.id True).Refs v w := K.add_self _ _ _
    have hlength := h.length_frames
    rw [← hname]
    refine .inl ?_
    rcases column_bindOuter (v := v) h.left hnone (c.vars.declareImplicit v.name span).2 with
      ⟨hone, hcolumn⟩ | ⟨n, htwo, hcolumn⟩
    · rcases column_bindOuter (v := w) h.right hnone' (d.vars.declareImplicit v.name span').2 with
        ⟨_, hcolumn'⟩ | ⟨n', htwo', _⟩
      · rw [hcolumn, hcolumn']
        exact .cons (.some hpair) .nil
      · omega
    · rcases column_bindOuter (v := w) h.right hnone' (d.vars.declareImplicit v.name span').2 with
        ⟨hone', _⟩ | ⟨n', htwo', hcolumn'⟩
      · omega
      · obtain rfl : n = n' := by omega
        rw [hcolumn, hcolumn']
        exact List.rel_append (forall₂_replicate _ n) (.cons (.some hpair) (.cons .none .nil))
  · have hother : (⟨(c.vars.declareImplicit v.name span).2,
        Frame.bindOuter (v.name, v) c.frames⟩ : Context).column name = c.column name :=
      Frame.column_bindOuter_ne hsame
    have hother' : (⟨(d.vars.declareImplicit w.name span').2,
        Frame.bindOuter (w.name, w) d.frames⟩ : Context).column name = d.column name :=
      Frame.column_bindOuter_ne (hname ▸ hsame)
    rw [hother, hother']
    refine h.columns_add hc fun u hu heq => ?_
    exact Nat.lt_irrefl _ (hid ▸ heq ▸ (mem_column h.left hu).1)

/-- A name is used in the second text that stands for something in the first one. -/
theorem late (h : Follows exact K c d) (hfind : c.find? w.name = some v) (hw : d.Resolves w d') :
    ∃ L, K.Le L ∧ Follows exact L c d' ∧ L.pairs v.id w.id := by
  rcases h.find?_rel w.name with hrel | ⟨u, hu, hnone, hmissing, os, ps, hos, hps, hrel⟩
  · rw [hfind] at hrel
    generalize hfind' : d.find? w.name = o at hrel
    cases hrel with
    | some hpair =>
      obtain ⟨rfl, rfl⟩ := hw.name_found hfind'
      exact ⟨K, .refl K, h, hpair⟩
  · obtain rfl : u = v := Option.some.inj (hu.symm.trans hfind)
    have hd := hw.extends
    have hright := hw.sound h.right
    have hltw := hw.lt_size h.right
    have hnamew := hw.name?_eq h.right
    have hnameu : c.vars.name? u.id = some w.name := (find?_spec h.left hfind).2
    obtain ⟨hid', htypew, span', rfl⟩ := resolves_implicit hw hnone
    have htypev := hmissing.1
    refine ⟨K.add u.id w.id True, K.le_add _ _ _, ?_, K.add_self _ _ _⟩
    refine h.add (.refl c) hd h.left hright hmissing.2 (hid' ▸ h.not_pairs_size.2)
      ⟨lt_size_of_type? htypev, hltw⟩ (by rw [hnameu, hnamew])
      (fun _ => by rw [htypev, htypew]) (fun _ => trivial) fun name => ?_
    by_cases hsame : name = w.name
    · subst hsame
      have hpair : (K.add u.id w.id True).Refs u w := K.add_self _ _ _
      have hcolumn : (⟨(d.vars.declareImplicit w.name span').2,
          Frame.bindOuter (w.name, w) d.frames⟩ : Context).column w.name = ps ++ [some w, none] :=
        Frame.column_bindOuter_two hps
      rw [hos, hcolumn]
      refine .inl (List.rel_append (Pairing.forall₂_mono (K.le_add _ _ _) hrel) ?_)
      exact .cons (.some hpair) (.cons .none .nil)
    · have hother : (⟨(d.vars.declareImplicit w.name span').2,
          Frame.bindOuter (w.name, w) d.frames⟩ : Context).column name = d.column name :=
        Frame.column_bindOuter_ne hsame
      rw [hother]
      refine h.columns_add (.refl c) fun x hx heq => hsame ?_
      have hget := (mem_column h.left hx).2
      have hget' := (find?_spec h.left hfind).2
      rw [heq, hget'] at hget
      exact (Option.some.inj hget).symm

/-- A name is used in both texts. -/
theorem resolve (h : Follows exact K c d) (hv : c.Resolves v c') (hw : d.Resolves w d')
    (hname : v.name = w.name) : ∃ L, K.Le L ∧ Follows exact L c' d' ∧ L.pairs v.id w.id := by
  rcases resolves_cases hv with ⟨hfind, rfl⟩ | ⟨hnone, _⟩
  · exact h.late (hname ▸ hfind) hw
  · exact ⟨_, K.le_add _ _ _, h.implicit hv hw hname hnone, K.add_self _ _ _⟩

/-- A name is used in the first text only, in a function. -/
theorem drop (h : Follows exact K c d) (hv : c.Resolves v c') (hlength : 2 ≤ c.frames.length) :
    Follows exact K c' d := by
  have hc := hv.extends
  have hleft := hv.sound h.left
  rcases resolves_cases hv with ⟨_, rfl⟩ | ⟨hnone, _⟩
  · exact h
  · obtain ⟨hid, htypev, span, rfl⟩ := resolves_implicit hv hnone
    refine ⟨hleft, h.right, h.unique, fun i j hij => ?_, fun i j hij => ?_, fun i j hij => ?_,
      h.all_typed, fun name => ?_⟩
    · obtain ⟨hi, hj⟩ := h.lt_size i j hij
      exact ⟨Nat.lt_of_lt_of_le hi hc.size_le, hj⟩
    · rw [VarTable.name?, hc.get?_eq i (h.lt_size i j hij).1]
      exact h.named i j hij
    · obtain ⟨hpairs, htype⟩ := h.typed i j hij
      exact ⟨hpairs, by rw [hc.type?_eq (h.lt_size i j hpairs).1, htype]⟩
    · by_cases hsame : name = v.name
      · subst hsame
        have hcolumn := column_of_none (h.find?_none hnone)
        rcases column_bindOuter (v := v) h.left hnone (c.vars.declareImplicit v.name span).2 with
          ⟨hone, _⟩ | ⟨n, htwo, hcolumn'⟩
        · omega
        · rw [← h.length_frames, htwo, List.replicate_add] at hcolumn
          rw [hcolumn, hcolumn']
          refine .inr ⟨_, _, v, rfl, rfl, forall₂_replicate K n, htypev, ?_⟩
          exact hid ▸ h.not_pairs_size.1
      · have hother : (⟨(c.vars.declareImplicit v.name span).2,
            Frame.bindOuter (v.name, v) c.frames⟩ : Context).column name = c.column name :=
          Frame.column_bindOuter_ne hsame
        rw [hother]
        refine (h.columns name).mono (.refl K) fun u _ hu => ⟨?_, hu.2⟩
        rw [hc.type?_eq (lt_size_of_type? hu.1)]
        exact hu.1

/-! ## Rows of names -/

theorem refers {vs ws : List VarRef} (h : Follows exact K c d) (hv : c.Refers vs c')
    (hw : d.Refers ws d') (hnames : vs.map VarRef.name = ws.map VarRef.name) :
    ∃ L, K.Le L ∧ Follows exact L c' d' ∧ List.Forall₂ L.Refs vs ws := by
  induction hv generalizing K d ws with
  | nil c =>
    obtain rfl : ws = [] := List.map_eq_nil_iff.mp hnames.symm
    cases hw
    exact ⟨K, .refl K, h, .nil⟩
  | cons first _ ih =>
    cases hw with
    | nil => cases hnames
    | cons first' rest' =>
      obtain ⟨hname, hnames⟩ := List.cons.inj hnames
      obtain ⟨L, hle, hfollows, hpair⟩ := h.resolve first first' hname
      obtain ⟨M, hle', hfollows', hpairs⟩ := ih hfollows rest' hnames
      exact ⟨M, hle.trans hle', hfollows', .cons (hle'.pairs _ _ hpair) hpairs⟩

theorem dropAll {vs : List VarRef} (h : Follows exact K c d) (hv : c.Refers vs c')
    (hlength : 2 ≤ c.frames.length) : Follows exact K c' d := by
  induction hv with
  | nil c => exact h
  | cons first _ ih =>
    have hfollows := h.drop first hlength
    exact ih hfollows (hfollows.length_frames ▸ h.length_frames ▸ hlength)

/-- Names are used in the second text that stand for something in the first one. -/
theorem lateAll {ws : List VarRef} (h : Follows exact K c d) (hw : d.Refers ws d')
    (hfind : ∀ w ∈ ws, c.find? w.name ≠ none) : ∃ L vs, K.Le L ∧ Follows exact L c d' ∧
      List.Forall₂ (fun v w => c.find? w.name = some v ∧ L.Refs v w) vs ws := by
  induction hw generalizing K with
  | nil d => exact ⟨K, [], .refl K, h, .nil⟩
  | cons first _ ih =>
    obtain ⟨hfirst, hrest⟩ := List.forall_mem_cons.mp hfind
    obtain ⟨v, hv⟩ := Option.ne_none_iff_exists'.mp hfirst
    obtain ⟨L, hle, hfollows, hpair⟩ := h.late hv first
    obtain ⟨M, vs, hle', hfollows', hvs⟩ := ih hfollows hrest
    exact ⟨M, v :: vs, hle.trans hle', hfollows', .cons ⟨hv, hle'.pairs _ _ hpair⟩ hvs⟩

end Follows

/-- A name that was used stands for its variable. -/
theorem Resolves.find? {c c' : Context} {v : VarRef} (h : c.Resolves v c') (hc : c.Sound) :
    c'.find? v.name = some v := by
  rcases resolves_cases h with ⟨hfind, rfl⟩ | ⟨hnone, _, span, rfl⟩
  · exact hfind
  · rw [find?_eq_column]
    rcases Follows.column_bindOuter (v := v) hc hnone (c.vars.declareImplicit v.name span).2 with
      ⟨_, hcolumn⟩ | ⟨n, _, hcolumn⟩
    · rw [hcolumn]
      rfl
    · rw [hcolumn, List.findSome?_append, List.findSome?_replicate_of_isNone rfl]
      rfl

/-- The names that were used stand for their variables. -/
theorem Refers.find? {c c' : Context} {vs : List VarRef} (h : c.Refers vs c') (hc : c.Sound) :
    ∀ v ∈ vs, c'.find? v.name = some v := by
  induction h with
  | nil => exact fun _ hv => absurd hv List.not_mem_nil
  | cons first rest ih =>
    refine List.forall_mem_cons.mpr ⟨?_, ih (first.sound hc)⟩
    have hfind := first.find? hc
    exact (Refers.keeps rest hfind).1.find?.trans hfind

end Context

end LoopNest
