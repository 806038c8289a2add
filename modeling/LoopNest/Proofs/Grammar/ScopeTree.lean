import LoopNest.Proofs.Grammar.Balanced
import LoopNest.Proofs.Grammar.Separate

/-!
# The scopes of constructs

A list of parameters, a block and a loop have a scope of their own each. What is declared directly
in one of them is bound there.

* `Reader.BoundIn`: a variable and the scope that binds it.
* `Stmt.StandsIn`, `Function.StandsIn`: a tree in a scope, with the scopes that are opened in it.
* `Parse.Settles`: a step that reads such a tree, whatever is read behind it.
* `Grammar.functions_settle`: all functions stand in the scope that is open in front of them,
  whatever went wrong in between.
-/

namespace LoopNest

/-! ## Bindings and scopes of a tree -/

namespace Reader

/-- The variable `x` of the number `id` is bound to its name in the scope `i`. -/
def BoundIn (r : Reader) (i id : Nat) (x : Variable) : Prop :=
  r.vars.get? id = some x ∧ (x.name, ⟨id, x.name⟩) ∈ r.scopes.frame i

/-- The variable is one that is declared in the scope. -/
def Declares (r : Reader) (i : Nat) (v : VarRef) : Prop :=
  ∃ x, r.BoundIn i v.id x ∧ x.name = v.name ∧ x.implicit = false

/-- No scope is opened, and the variables are declared in the scope. -/
def OnlyDeclares (r : Reader) (i : Nat) (js : List Nat) (vs : List VarRef) : Prop :=
  js = [] ∧ ∀ v ∈ vs, r.Declares i v

theorem OnlyDeclares.nil (r : Reader) (i : Nat) : r.OnlyDeclares i [] [] := ⟨rfl, nofun⟩

theorem OnlyDeclares.append {r : Reader} {i : Nat} {js ks : List Nat} {vs ws : List VarRef}
    (h : r.OnlyDeclares i js vs) (h' : r.OnlyDeclares i ks ws) :
    r.OnlyDeclares i (js ++ ks) (vs ++ ws) := by
  obtain ⟨rfl, hvs⟩ := h
  obtain ⟨rfl, hws⟩ := h'
  exact ⟨rfl, List.forall_mem_append.mpr ⟨hvs, hws⟩⟩

end Reader

mutual

/-- The statement stands in the scope `i`, and the scopes `js` are opened in it, in this order. A
loop has a scope for its header and its body, a block has one for its statements. -/
inductive Stmt.StandsIn (r : Reader) : Nat → List Nat → Stmt → Prop
  | declaration {i : Nat} {ds : List Declarator} (head : StmtHead)
      (hds : ∀ d ∈ ds, r.Declares i d.var) : Stmt.StandsIn r i [] (.declaration head ds)
  | expression {i : Nat} (head : StmtHead) (x : Expr) : Stmt.StandsIn r i [] (.expression head x)
  | forLoop {i j : Nat} {is cs us bs : List Nat} {init check update body : Stmt} (head : StmtHead)
      (hj : r.scopes.outer? j = some i) (hinit : Stmt.StandsIn r j is init)
      (hcheck : Stmt.StandsIn r j cs check) (hupdate : Stmt.StandsIn r j us update)
      (hbody : Stmt.StandsIn r j bs body) :
      Stmt.StandsIn r i (j :: (is ++ (cs ++ (us ++ bs)))) (.forLoop head init check update body)
  | block {i j : Nat} {js : List Nat} {body : List Stmt} (head : StmtHead)
      (hj : r.scopes.outer? j = some i) (hbody : Stmt.AllStandIn r j js body) :
      Stmt.StandsIn r i (j :: js) (.block head body)
  | ifThen {i : Nat} {ts : List Nat} {thenBranch : Stmt} (head : StmtHead) (condition : Expr)
      (hthen : Stmt.StandsIn r i ts thenBranch) :
      Stmt.StandsIn r i ts (.ifThen head condition thenBranch)
  | ifElse {i : Nat} {ts es : List Nat} {thenBranch elseBranch : Stmt} (head : StmtHead)
      (condition : Expr) (hthen : Stmt.StandsIn r i ts thenBranch)
      (helse : Stmt.StandsIn r i es elseBranch) :
      Stmt.StandsIn r i (ts ++ es) (.ifElse head condition thenBranch elseBranch)
  | whileLoop {i : Nat} {bs : List Nat} {body : Stmt} (head : StmtHead) (condition : Expr)
      (hbody : Stmt.StandsIn r i bs body) : Stmt.StandsIn r i bs (.whileLoop head condition body)
  | returns {i : Nat} (head : StmtHead) (value : Option Expr) :
      Stmt.StandsIn r i [] (.returns head value)
  | empty {i : Nat} (head : StmtHead) : Stmt.StandsIn r i [] (.empty head)

/-- Statements one after the other stand in the scope. -/
inductive Stmt.AllStandIn (r : Reader) : Nat → List Nat → List Stmt → Prop
  | nil {i : Nat} : Stmt.AllStandIn r i [] []
  | cons {i : Nat} {js ks : List Nat} {s : Stmt} {ss : List Stmt} (hs : Stmt.StandsIn r i js s)
      (hss : Stmt.AllStandIn r i ks ss) : Stmt.AllStandIn r i (js ++ ks) (s :: ss)

end

theorem Stmt.StandsIn.ofDeclarators {r : Reader} {i : Nat} {js : List Nat} {ds : List Declarator}
    (head : StmtHead) (h : r.OnlyDeclares i js (ds.map Declarator.var)) :
    Stmt.StandsIn r i (js ++ []) (.declaration head ds) := by
  obtain ⟨rfl, hds⟩ := h
  exact .declaration head fun d hd => hds d.var (List.mem_map_of_mem hd)

/-- The function stands in the scope `i`. It has a scope for its parameters, in which the scope of
its body lies. -/
inductive Function.StandsIn (r : Reader) (i : Nat) : List Nat → Function → Prop
  | mk {j k : Nat} {ks : List Nat} {f : Function} (hj : r.scopes.outer? j = some i)
      (hparams : ∀ v ∈ f.params, r.Declares j v) (hk : r.scopes.outer? k = some j)
      (hbody : Stmt.AllStandIn r k ks f.body.statements) : Function.StandsIn r i (j :: k :: ks) f

/-- Functions one after the other stand in the scope. -/
inductive Function.AllStandIn (r : Reader) (i : Nat) : List Nat → List Function → Prop
  | nil : Function.AllStandIn r i [] []
  | cons {js ks : List Nat} {f : Function} {fs : List Function} (hf : f.StandsIn r i js)
      (hfs : Function.AllStandIn r i ks fs) : Function.AllStandIn r i (js ++ ks) (f :: fs)

/-! ## Readers that only bind more -/

namespace Reader

variable {r r' s : Reader} {i j id : Nat} {x y : Variable}

theorem frame_push (s : Scopes) : s.push.frame = s.frame := by
  funext i
  simp only [Scopes.frame, Scopes.push, Array.getElem?_push]
  split
  · next hi =>
    subst hi
    simp
  · rfl

/-- Variables stay bound where they are, and scopes stay where they are in the tree. -/
structure Retains (r s : Reader) : Prop where
  outer : ∀ {i o}, r.scopes.outer? i = some o → s.scopes.outer? i = some o
  boundIn : ∀ {i id x}, r.BoundIn i id x → s.BoundIn i id x

theorem Retains.trans (h : r.Retains r') (h' : r'.Retains s) : r.Retains s :=
  ⟨fun ho => h'.outer (h.outer ho), fun hx => h'.boundIn (h.boundIn hx)⟩

/-- More is bound, by steps that closed all scopes that they opened. -/
structure Grows (r s : Reader) : Prop where
  extends_scopes : r.Extends s
  boundIn : ∀ {i id x}, r.BoundIn i id x → s.BoundIn i id x

theorem Grows.retains (h : r.Grows s) : r.Retains s :=
  ⟨fun ho => (h.extends_scopes.scopes.outer_eq _ (Scopes.outer?_lt_size ho)).trans ho, h.boundIn⟩

theorem Grows.size_le (h : r.Grows s) : r.scopes.tree.size ≤ s.scopes.tree.size :=
  h.extends_scopes.scopes.size_le

/-- The variable `x` is new in `r'`, and it is bound in the scope `i`. -/
structure Adds (r : Reader) (i : Nat) (x : Variable) (r' : Reader) : Prop where
  vars : r'.vars = (r.vars.add x).2
  scopes : r'.scopes = r.scopes.bind i x.name ⟨r.vars.size, x.name⟩
  lt : i < r.scopes.tree.size

namespace Adds

theorem get?_iff (ha : r.Adds i x r') : r'.vars.get? id = some y ↔
    r.vars.get? id = some y ∨ id = r.vars.size ∧ y = x := by
  rw [ha.vars]
  rcases Nat.lt_trichotomy id r.vars.size with hlt | rfl | hgt
  · rw [VarTable.get?_add_of_lt x hlt]
    constructor
    · exact .inl
    · rintro (h | ⟨rfl, -⟩)
      · exact h
      · exact absurd hlt (Nat.lt_irrefl _)
  · rw [VarTable.get?_add_self]
    constructor
    · exact fun h => .inr ⟨rfl, (Option.some.inj h).symm⟩
    · rintro (h | ⟨-, rfl⟩)
      · exact absurd (Array.getElem?_eq_some_iff.mp h).1 (Nat.lt_irrefl _)
      · rfl
  · constructor
    · intro h
      obtain ⟨rfl, -⟩ := VarTable.eq_of_get?_add h (Nat.le_of_lt hgt)
      exact absurd hgt (Nat.lt_irrefl _)
    · rintro (h | ⟨rfl, -⟩)
      · exact absurd (Array.getElem?_eq_some_iff.mp h).1 (Nat.lt_asymm hgt)
      · exact absurd hgt (Nat.lt_irrefl _)

theorem mem_frame_iff (ha : r.Adds i x r') {b : String × VarRef} : b ∈ r'.scopes.frame j ↔
    b ∈ r.scopes.frame j ∨ j = i ∧ b = (x.name, ⟨r.vars.size, x.name⟩) := by
  rw [ha.scopes, Scopes.frame_bind _ _ ha.lt]
  split
  · next hj => simp [hj, or_comm]
  · next hj => simp [hj]

theorem boundIn (ha : r.Adds i x r') : r'.BoundIn i r.vars.size x :=
  ⟨ha.get?_iff.mpr (.inr ⟨rfl, rfl⟩), ha.mem_frame_iff.mpr (.inr ⟨rfl, rfl⟩)⟩

theorem grows (ha : r.Adds i x r') : r.Grows r' := by
  refine ⟨extends_of_bind ha.scopes, fun hy => ⟨?_, ?_⟩⟩
  · exact ha.get?_iff.mpr (.inl hy.1)
  · exact ha.mem_frame_iff.mpr (.inl hy.2)

end Adds

theorem grows_of_eq (hscopes : r'.scopes = r.scopes) (hvars : r'.vars = r.vars) : r.Grows r' := by
  refine ⟨extends_of_scopes hscopes, fun hy => ⟨?_, ?_⟩⟩
  · rw [hvars]
    exact hy.1
  · rw [hscopes]
    exact hy.2

/-- In a tree of scopes, nothing that is bound gets lost. -/
def KeepsBindings (r s : Reader) : Prop := r.scopes.WellFormed → r.Grows s

theorem grows_invariant : Parse.Invariant KeepsBindings where
  refl r _ := grows_of_eq rfl rfl
  trans h h' hr := by
    have hfirst := h hr
    have hnext := h' (hfirst.extends_scopes.wellFormed hr)
    exact ⟨extends_invariant.trans hfirst.extends_scopes hnext.extends_scopes,
      fun hx => hnext.boundIn (hfirst.boundIn hx)⟩
  advance r _ := by
    unfold advance
    split
    all_goals exact grows_of_eq rfl rfl
  stopHere r _ := grows_of_eq rfl rfl
  resolve name span r hr := by
    rw [Parse.resolve_apply]
    cases hlookup : r.scopes.lookup name with
    | some v =>
      apply grows_of_eq
      all_goals simp only [Scopes.resolve, hlookup]
    | none =>
      have ha : r.Adds r.scopes.functionScope ⟨name, .int, span, true⟩ { r with
          vars := (r.scopes.resolve r.vars name span).2.1
          scopes := (r.scopes.resolve r.vars name span).2.2 } := by
        refine ⟨?_, ?_, Scopes.functionScope_lt hr⟩
        all_goals
          simp only [Scopes.resolve, hlookup]
          rfl
      exact ha.grows
  inScope {r s} h hr := by
    have hs := h hr.push
    refine ⟨extends_invariant.inScope hs.extends_scopes, fun hx => hs.boundIn ⟨hx.1, ?_⟩⟩
    show _ ∈ r.scopes.push.frame _
    rw [frame_push]
    exact hx.2

/-- What is declared is bound in the open scope. -/
theorem adds_declare (hr : r.scopes.WellFormed) (name : String) (type : VarType) (span : Span) :
    r.Adds r.scopes.current ⟨name, type, span, false⟩ (Parse.declare name type span r).2 := by
  rw [Parse.declare_apply]
  dsimp only
  split
  all_goals exact ⟨rfl, rfl, hr.current_lt⟩

theorem tolerant_grows : Grammar.Handling.tolerant.Keeps KeepsBindings where
  declare name type span _ hr := (adds_declare hr name type span).grows
  recovering hstep hrecover :=
    Grammar.Handling.recovering_keeps grows_invariant (fun _ _ _ => grows_of_eq rfl rfl) hstep
      hrecover

/-- The scopes were opened between the two readers, in this order. -/
structure Opened (r s : Reader) (js : List Nat) : Prop where
  sorted : js.Pairwise (· < ·)
  between : ∀ j ∈ js, r.scopes.tree.size ≤ j ∧ j < s.scopes.tree.size

theorem Opened.nil (r s : Reader) : r.Opened s [] := ⟨.nil, nofun⟩

theorem Opened.append {js ks : List Nat} (h : r.Opened r' js) (h' : r'.Opened s ks)
    (hr : r.scopes.tree.size ≤ r'.scopes.tree.size)
    (hs : r'.scopes.tree.size ≤ s.scopes.tree.size) : r.Opened s (js ++ ks) := by
  refine ⟨List.pairwise_append.mpr ⟨h.sorted, h'.sorted, fun j hj k hk => ?_⟩, fun j hj => ?_⟩
  · exact Nat.lt_of_lt_of_le (h.between j hj).2 (h'.between k hk).1
  · rcases List.mem_append.mp hj with hj | hj
    · exact ⟨(h.between j hj).1, Nat.lt_of_lt_of_le (h.between j hj).2 hs⟩
    · exact ⟨Nat.le_trans hr (h'.between j hj).1, (h'.between j hj).2⟩

/-- A scope that is opened comes in front of those that are opened in it. -/
theorem Opened.inScope {js : List Nat}
    (h : Opened { r with scopes := r.scopes.push } s js)
    (hs : r.scopes.push.tree.size ≤ s.scopes.tree.size) :
    r.Opened { s with scopes := s.scopes.pop } (r.scopes.tree.size :: js) := by
  have hsize : r.scopes.push.tree.size = r.scopes.tree.size + 1 := Array.size_push _
  have hbetween (j : Nat) (hj : j ∈ js) :
      r.scopes.tree.size + 1 ≤ j ∧ j < s.scopes.tree.size := hsize ▸ h.between j hj
  rw [hsize] at hs
  refine ⟨List.pairwise_cons.mpr ⟨fun j hj => (hbetween j hj).1, h.sorted⟩, fun j hj => ?_⟩
  rcases List.mem_cons.mp hj with rfl | hj
  · exact ⟨Nat.le_refl _, hs⟩
  · exact ⟨Nat.le_of_succ_le (hbetween j hj).1, (hbetween j hj).2⟩

end Reader

/-! ## Steps that read trees -/

namespace Parse

variable {α β : Type} {step : Parse α} {P Q : Reader → Nat → List Nat → α → Prop}
  {R : Reader → Nat → List Nat → β → Prop}

/-- The step keeps all bindings. Its result has the property for the scope that is open, for the
scopes that the step opens, and for all readers that have the bindings of the one behind the step. -/
structure Settles (step : Parse α) (P : Reader → Nat → List Nat → α → Prop) : Prop where
  grows : Keeps Reader.KeepsBindings step
  result : ∀ {r a r'}, step r = (.ok a, r') → r.scopes.WellFormed →
    ∃ js, r.Opened r' js ∧ ∀ s, r'.Retains s → P s r.scopes.current js a

namespace Settles

theorem grows_of_ok (h : step.Settles P) {r r' : Reader} {a : α} (hrun : step r = (.ok a, r'))
    (hr : r.scopes.WellFormed) : r.Grows r' := by
  have hgrows := h.grows r hr
  rwa [hrun] at hgrows

theorem mono (h : step.Settles P) (himp : ∀ s i js a, P s i js a → Q s i js a) :
    step.Settles Q := by
  refine ⟨h.grows, fun hrun hr => ?_⟩
  obtain ⟨js, hjs, hp⟩ := h.result hrun hr
  exact ⟨js, hjs, fun s hs => himp s _ js _ (hp s hs)⟩

/-- A step of which nothing is said. -/
theorem any (h : Keeps Reader.KeepsBindings step) :
    step.Settles fun _ _ js _ => js = [] :=
  ⟨h, fun _ _ => ⟨[], .nil _ _, fun _ _ => rfl⟩⟩

theorem pure {a : α} (h : ∀ s i, P s i [] a) : Settles (Pure.pure a) P := by
  refine ⟨.pure Reader.grows_invariant a, fun {r b r'} hrun hr => ⟨[], .nil _ _, fun s hs => ?_⟩⟩
  cases hrun
  exact h s _

theorem fail (cause : Problem.Cause) : Settles (Parse.fail cause) P :=
  ⟨.fail Reader.grows_invariant cause, fun hrun => by cases hrun⟩

theorem get {next : Reader → Parse α} (h : ∀ r, (next r).Settles P) :
    Settles (MonadStateOf.get >>= next) P :=
  ⟨fun r => (h r).grows r, fun {r _ _} hrun hr => (h r).result hrun hr⟩

/-- The scopes of the first step come before those of the second one. -/
theorem bind {next : α → Parse β} (h : step.Settles P)
    (hnext : ∀ a, (next a).Settles fun s i ks b => ∀ js, P s i js a → R s i (js ++ ks) b) :
    (step >>= next).Settles R := by
  refine ⟨h.grows.bind Reader.grows_invariant fun a => (hnext a).grows, fun {r b r'} hrun hr => ?_⟩
  obtain ⟨a, r₁, hstep, hrun⟩ := bind_eq_ok hrun
  obtain ⟨js, hjs, hp⟩ := h.result hstep hr
  have hgrows := h.grows_of_ok hstep hr
  have hr₁ := hgrows.extends_scopes.wellFormed hr
  obtain ⟨ks, hks, hq⟩ := (hnext a).result hrun hr₁
  have hgrows₁ := (hnext a).grows_of_ok hrun hr₁
  refine ⟨js ++ ks, hjs.append hks hgrows.size_le hgrows₁.size_le, fun s hs => ?_⟩
  have hq := hq s hs js
  rw [hgrows.extends_scopes.scopes.current_eq] at hq
  exact hq (hp s (hgrows₁.retains.trans hs))

/-- Nothing is said of the first step. -/
theorem after {next : α → Parse β}
    (h : Keeps Reader.KeepsBindings step)
    (hnext : ∀ a, (next a).Settles R) : (step >>= next).Settles R := by
  refine (any h).bind fun a => (hnext a).mono fun s i ks b hb js hjs => ?_
  rw [hjs]
  exact hb

theorem inScope (h : step.Settles P) : (Parse.inScope step).Settles fun s i js a =>
    ∃ j ks, js = j :: ks ∧ s.scopes.outer? j = some i ∧ P s j ks a := by
  refine ⟨h.grows.inScope Reader.grows_invariant, fun {r a r'} hrun hr => ?_⟩
  rw [inScope_apply] at hrun
  have hgrows := h.grows { r with scopes := r.scopes.push } hr.push
  rcases hstep : step { r with scopes := r.scopes.push } with ⟨result, s⟩
  rw [hstep] at hrun hgrows
  obtain ⟨rfl, rfl⟩ := Prod.mk.inj hrun
  obtain ⟨ks, hks, hp⟩ := h.result hstep hr.push
  refine ⟨r.scopes.tree.size :: ks, hks.inScope hgrows.size_le, fun t ht => ?_⟩
  have houter : s.scopes.outer? r.scopes.tree.size = some r.scopes.current :=
    hgrows.retains.outer Scopes.outer?_push_size
  exact ⟨_, ks, rfl, ht.outer houter, hp t ⟨ht.outer, ht.boundIn⟩⟩

theorem recovering (h : step.Settles P) {recover : Reader → Reader}
    (hrecover : ∀ r, Reader.KeepsBindings r (recover r)) :
    (Parse.recovering step recover).Settles fun s i js o => o.elim (js = []) (P s i js) := by
  refine ⟨Reader.tolerant_grows.recovering h.grows hrecover, fun {r o r'} hrun hr => ?_⟩
  rcases hstep : step r with ⟨failure | a, r₁⟩
  · rw [recovering_of_error hstep] at hrun
    cases hrun
    exact ⟨[], .nil _ _, fun _ _ => rfl⟩
  · rw [recovering_of_ok hstep] at hrun
    cases hrun
    exact h.result hstep hr

/-- The results of a repeated step, with what is said of lists of them. -/
theorem many {step : Parse (Option α)} {P : Reader → Nat → List Nat → Option α → Prop}
    {L : Reader → Nat → List Nat → List α → Prop} (h : step.Settles P)
    (hnil : ∀ s i, L s i [] []) (hnone : ∀ s i js, P s i js none → js = [])
    (hsome : ∀ s i js ks a as, P s i js (some a) → L s i ks as → L s i (js ++ ks) (a :: as)) :
    (Parse.many step).Settles L := by
  have hrounds (rounds : List Item) : (Parse.manyFor step rounds).Settles L := by
    induction rounds with
    | nil => exact pure hnil
    | cons _ rounds ih =>
      apply h.bind
      intro o
      cases o with
      | none =>
        apply pure
        intro s i js hjs
        rw [hnone s i js hjs]
        exact hnil s i
      | some a =>
        apply ih.bind
        intro as
        apply pure
        intro s i ks hks js hjs
        rw [List.append_nil]
        exact hsome s i js ks a as hjs hks
  exact get fun r => hrounds r.remaining

/-- Items that are read unless there is none left, with nothing made of one that cannot be read. -/
theorem items {L : Reader → Nat → List Nat → List α → Prop} (stop : Reader → Bool)
    {recover : Reader → Reader → Reader} (h : step.Settles P)
    (hrecover : ∀ r s, Reader.KeepsBindings s (recover r s)) (hnil : ∀ s i, L s i [] [])
    (hcons : ∀ s i js ks a as, P s i js a → L s i ks as → L s i (js ++ ks) (a :: as)) :
    (Parse.many (Parse.itemUnless stop fun r => Parse.recovering step (recover r))).Settles
      fun s i js os => L s i js (os.filterMap id) := by
  have hitem : (Parse.itemUnless stop fun r => Parse.recovering step (recover r)).Settles
      fun s i js item => item.elim (js = []) fun o => o.elim (js = []) (P s i js) := by
    apply get
    intro r
    split
    · exact pure fun s i => rfl
    · apply (h.recovering (hrecover r)).bind
      intro o
      apply pure
      intro s i js ho
      rwa [List.append_nil]
  refine hitem.many (fun s i => hnil s i) (fun s i js hjs => hjs) ?_
  intro s i js ks o os ho hos
  cases o with
  | none =>
    obtain rfl : js = [] := ho
    exact hos
  | some a => exact hcons s i js ks a _ ho hos

/-- A step behind a symbol, if the symbol is there. -/
theorem behindSymbol (k : Symbol) {step : Parse α} (h : step.Settles P) {otherwise : α}
    (hotherwise : ∀ s i, P s i [] otherwise) :
    Settles (do if ← Parse.accept k then step else Pure.pure otherwise) P := by
  apply after (Keeps.accept Reader.grows_invariant k)
  intro accepted
  cases accepted with
  | true => exact h
  | false => exact pure hotherwise

end Settles

end Parse

namespace Grammar

open Parse Reader

/-! ## Declarations -/

theorem declare_settles (name : String) (type : VarType) (span : Span) :
    (Parse.declare name type span).Settles fun s i js v => s.OnlyDeclares i js [v] := by
  refine ⟨tolerant_grows.declare name type span, fun {r v r'} hrun hr => ?_⟩
  have ha := adds_declare hr name type span
  have hv : v = ⟨r.vars.size, name⟩ := by
    rw [Parse.declare_apply] at hrun
    cases hrun
    rfl
  rw [hrun] at ha
  refine ⟨[], .nil _ _, fun s hs => ⟨rfl, List.forall_mem_singleton.mpr ?_⟩⟩
  rw [hv]
  exact ⟨_, hs.boundIn ha.boundIn, rfl, rfl⟩

/-- Items that declare a variable each, with commas between them. -/
theorem items_settle {α : Type} (var : α → VarRef) {first next : Parse α}
    (hfirst : first.Settles fun s i js a => s.OnlyDeclares i js [var a])
    (hnext : next.Settles fun s i js a => s.OnlyDeclares i js [var a]) :
    (do
      let a ← first
      let as ← many (separated next)
      return a :: as : Parse (List α)).Settles
        fun s i js as => s.OnlyDeclares i js (as.map var) := by
  have hitem : (separated next).Settles fun s i js o => s.OnlyDeclares i js (o.toList.map var) := by
    apply Settles.behindSymbol
    · apply hnext.bind
      intro a
      apply Settles.pure
      intro s i js ha
      rwa [List.append_nil]
    · exact OnlyDeclares.nil
  have hrest := hitem.many (L := fun s i js as => s.OnlyDeclares i js (as.map var))
    OnlyDeclares.nil (fun s i js h => h.1) fun s i js ks a as ha has => ha.append has
  apply hfirst.bind
  intro a
  apply hrest.bind
  intro as
  apply Settles.pure
  intro s i ks has js ha
  rw [List.append_nil]
  exact ha.append has

theorem parameter_settles (type : VarType) :
    (parameter type).Settles fun s i js v => s.OnlyDeclares i js [v] := by
  have hR := grows_invariant
  apply Settles.after (stars_keeps hR)
  intro depth
  apply Settles.after (currentSpan_keeps hR)
  intro span
  apply Settles.after (Keeps.name hR _)
  intro name
  exact .after (parameterBrackets_keeps hR) fun n => declare_settles _ _ _

theorem parameters_settle : parameters.Settles OnlyDeclares := by
  have htype := typeName_keeps grows_invariant
  have hitems (type : VarType) := items_settle id (parameter_settles type)
    (.after htype parameter_settles)
  simp only [List.map_id] at hitems
  rw [parameters_eq, parameterItem_eq]
  apply Settles.get
  intro r
  split
  · exact .pure OnlyDeclares.nil
  · apply Settles.after htype
    intro type
    apply Settles.get
    intro r'
    split
    · exact .pure OnlyDeclares.nil
    · exact hitems type

theorem declarator_settles (type : VarType) :
    (declarator type).Settles fun s i js d => s.OnlyDeclares i js [d.var] := by
  have hR := grows_invariant
  apply Settles.after (currentSpan_keeps hR)
  intro start
  apply Settles.after (stars_keeps hR)
  intro depth
  apply Settles.after (currentSpan_keeps hR)
  intro nameSpan
  apply Settles.after (Keeps.name hR _)
  intro name
  apply Settles.after (arrayBrackets_keeps hR)
  intro n
  apply Settles.after (initializer_keeps hR)
  intro value
  apply (declare_settles _ _ _).bind
  intro v
  apply Settles.after (spanFrom_keeps hR start)
  intro span
  apply Settles.pure
  intro s i js hv
  rwa [List.append_nil]

theorem declaration_settles :
    declaration.Settles fun s i js ds => s.OnlyDeclares i js (ds.map Declarator.var) := by
  have hR := grows_invariant
  apply Settles.after (typeName_keeps hR)
  intro type
  apply (items_settle Declarator.var (declarator_settles type) (declarator_settles type)).bind
  intro ds
  apply Settles.after (Keeps.expect hR _ _)
  intro _
  apply Settles.pure
  intro s i js hds
  rwa [List.append_nil]

/-! ## Statements -/

theorem initClause_settles : initClause.Settles fun s i js init => init.StandsIn s i js := by
  have hR := grows_invariant
  apply Settles.after (currentSpan_keeps hR)
  intro start
  apply Settles.after (Keeps.accept hR _)
  intro accepted
  cases accepted with
  | true => exact .pure fun s i => .empty _
  | false =>
    apply Settles.get
    intro r
    split
    · apply declaration_settles.bind
      intro ds
      apply Settles.after (spanFrom_keeps hR start)
      intro span
      apply Settles.pure
      intro s i js hds
      exact .ofDeclarators _ hds
    · apply Settles.after (expression_keeps hR)
      intro x
      apply Settles.after (Keeps.expect hR _ _)
      intro _
      exact .pure fun s i => .expression _ x

theorem clause_settles (stops : List Symbol) :
    (clause stops).Settles fun s i js c => c.StandsIn s i js := by
  apply Settles.get
  intro r
  split
  · exact .pure fun s i => .empty _
  · apply Settles.after (expression_keeps grows_invariant)
    intro x
    exact .pure fun s i => .expression _ x

/-- The end of a statement, where its head is put to it. -/
theorem headed_settles (start : Span) (marks : List Attribute) {f : StmtHead → Stmt}
    {P : Reader → Nat → List Nat → Stmt → Prop} (h : ∀ s i head, P s i [] (f head)) :
    (do
      let head ← (do return ⟨← spanFrom start, marks⟩ : Parse StmtHead)
      return f head : Parse Stmt).Settles P := by
  have hhead : Keeps KeepsBindings (do return ⟨← spanFrom start, marks⟩ : Parse StmtHead) :=
    .bind grows_invariant (spanFrom_keeps grows_invariant start) fun span =>
      .pure grows_invariant _
  exact .after hhead fun head => .pure fun s i => h s i head

section

variable {statement : Parse Stmt} (hs : statement.Settles fun s i js a => a.StandsIn s i js)
include hs

theorem block_settles : (block statement).Settles fun s i js b =>
    ∃ j ks, js = j :: ks ∧ s.scopes.outer? j = some i ∧ Stmt.AllStandIn s j ks b.statements := by
  have hR := grows_invariant
  have hitems := Settles.items endsBlock hs (L := Stmt.AllStandIn)
    (fun r => hR.recoverStatement r.current.span) (fun s i => .nil) fun s i js ks a as => .cons
  apply Settles.after (currentSpan_keeps hR)
  intro start
  apply Settles.after (Keeps.expect hR _ _)
  intro _
  apply hitems.inScope.bind
  intro items
  apply Settles.after (Keeps.expect hR _ _)
  intro _
  apply Settles.after (spanFrom_keeps hR start)
  intro span
  apply Settles.pure
  intro s i js hjs
  rwa [List.append_nil]

theorem forRest_settles : (forRest statement).Settles fun s i js p =>
    ∃ is cs us bs, js = is ++ (cs ++ (us ++ bs)) ∧ p.2.init.StandsIn s i is ∧
      p.2.check.StandsIn s i cs ∧ p.2.update.StandsIn s i us ∧ p.2.body.StandsIn s i bs := by
  have hR := grows_invariant
  apply initClause_settles.bind
  intro init
  apply (clause_settles _).bind
  intro check
  apply Settles.after (Keeps.expect hR _ _)
  intro _
  apply (clause_settles _).bind
  intro update
  apply Settles.after (headerAttributes_keeps hR)
  intro marks
  apply Settles.after (Keeps.expect hR _ _)
  intro _
  apply hs.bind
  intro body
  apply Settles.pure
  intro s i bs hbody us hupdate cs hcheck is hinit
  exact ⟨is, cs, us, bs, by rw [List.append_nil], hinit, hcheck, hupdate, hbody⟩

theorem forStatement_settles (marks : List Attribute) :
    (forStatement statement marks).Settles fun s i js a => a.StandsIn s i js := by
  have hR := grows_invariant
  apply Settles.after (currentSpan_keeps hR)
  intro start
  apply Settles.after (Keeps.advance hR)
  intro _
  apply Settles.after (Keeps.expect hR _ _)
  intro _
  apply (forRest_settles hs).inScope.bind
  rintro ⟨more, loop⟩
  apply Settles.after (spanFrom_keeps hR start)
  intro span
  apply Settles.pure
  rintro s i _ ⟨j, _, rfl, hj, is, cs, us, bs, rfl, hinit, hcheck, hupdate, hbody⟩
  rw [List.append_nil]
  exact .forLoop _ hj hinit hcheck hupdate hbody

theorem statementRest_settles (marks : List Attribute) :
    (statementRest statement marks).Settles fun s i js a => a.StandsIn s i js := by
  have hR := grows_invariant
  apply Settles.after (currentSpan_keeps hR)
  intro start
  apply Settles.get
  intro r
  split
  · exact forStatement_settles hs marks
  · apply (block_settles hs).bind
    intro b
    apply headed_settles
    rintro s i head _ ⟨j, js, rfl, hj, hbody⟩
    rw [List.append_nil]
    exact .block head hj hbody
  · apply Settles.after (condition_keeps hR _)
    intro c
    apply hs.bind
    intro thenBranch
    apply Settles.after (Keeps.acceptKind hR _)
    intro accepted
    cases accepted with
    | true =>
      apply hs.bind
      intro elseBranch
      apply headed_settles
      intro s i head es helse ts hthen
      rw [List.append_nil]
      exact .ifElse head c hthen helse
    | false =>
      apply headed_settles
      intro s i head ts hthen
      rw [List.append_nil]
      exact .ifThen head c hthen
  · apply Settles.after (condition_keeps hR _)
    intro c
    apply hs.bind
    intro body
    apply headed_settles
    intro s i head bs hbody
    rw [List.append_nil]
    exact .whileLoop head c hbody
  · apply Settles.after (Keeps.advance hR)
    intro _
    apply Settles.after (optionalValue_keeps hR)
    intro value
    apply Settles.after (Keeps.expect hR _ _)
    intro _
    exact headed_settles start marks fun s i head => .returns head value
  · apply Settles.after (Keeps.advance hR)
    intro _
    exact headed_settles start marks fun s i head => .empty head
  · apply declaration_settles.bind
    intro ds
    apply headed_settles
    intro s i head js hds
    exact .ofDeclarators head hds
  · apply Settles.after (expression_keeps hR)
    intro x
    apply Settles.after (Keeps.expect hR _ _)
    intro _
    exact headed_settles start marks fun s i head => .expression head x

end

theorem statementFor_settles (rounds : List Item) :
    (statementFor rounds).Settles fun s i js a => a.StandsIn s i js := by
  induction rounds with
  | nil => exact .fail _
  | cons _ rounds ih =>
    apply Settles.after (attributes_keeps grows_invariant)
    exact fun marks => statementRest_settles ih marks

theorem statement_settles : statement.Settles fun s i js a => a.StandsIn s i js :=
  .get fun r => statementFor_settles r.remaining

/-! ## Functions -/

theorem functionRest_settles : functionRest.Settles fun s i js p =>
    (∀ v ∈ p.1, s.Declares i v) ∧
      ∃ k ks, js = k :: ks ∧ s.scopes.outer? k = some i ∧
        Stmt.AllStandIn s k ks p.2.statements := by
  have hR := grows_invariant
  apply Settles.after (Keeps.expect hR _ _)
  intro _
  apply parameters_settle.bind
  intro params
  apply Settles.after (Keeps.expect hR _ _)
  intro _
  apply (block_settles statement_settles).bind
  intro body
  apply Settles.pure
  rintro s i _ hbody _ ⟨rfl, hparams⟩
  rw [List.append_nil]
  exact ⟨hparams, hbody⟩

theorem function_settles : function.Settles fun s i js f => f.StandsIn s i js := by
  have hR := grows_invariant
  apply Settles.after (attributes_keeps hR)
  intro marks
  apply Settles.after (currentSpan_keeps hR)
  intro start
  apply Settles.after (typeName_keeps hR)
  intro type
  apply Settles.after (Keeps.name hR _)
  intro name
  apply functionRest_settles.inScope.bind
  rintro ⟨params, body⟩
  apply Settles.after (spanFrom_keeps hR start)
  intro span
  apply Settles.pure
  rintro s i _ ⟨j, _, rfl, hj, hparams, k, ks, rfl, hk, hbody⟩
  rw [List.append_nil]
  exact .mk hj hparams hk hbody

/-- **Each construct has its own scope.** Whatever goes wrong in between, the functions that are
read stand in the scope that is open in front of them. -/
theorem functions_settle : functions.Settles Function.AllStandIn := by
  have hitems := Settles.items Reader.atEnd function_settles (L := Function.AllStandIn)
    (fun _ => grows_invariant.recoverFunction) (fun s i => .nil) fun s i js ks f fs => .cons
  apply hitems.bind
  intro items
  apply Settles.pure
  intro s i js hfs
  rwa [List.append_nil]

end Grammar

end LoopNest
