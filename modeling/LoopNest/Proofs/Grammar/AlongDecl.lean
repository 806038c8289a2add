import LoopNest.Proofs.Grammar.AlongExpr
import LoopNest.Proofs.Stmt.Relabel

/-!
# Declarations that are read alongside

Two texts with the same words up to where they part have the same types and declarations there.
What is declared in one of them corresponds to what is declared in the other one, with the same
type.

* `Declarator.Twin`: the same but for spans, with corresponding variables of one type.
* `Grammar.typeName_alongside`: types.
* `Grammar.Handling.declaration_alongside`, `Grammar.Handling.parameters_alongside`: declarations
  and parameters.
* `Grammar.Handling.initClause_alongside`, `Grammar.clause_alongside`: the clauses of a header,
  which may end where the texts part.
-/

namespace LoopNest

namespace Grammar

open Parse

variable {F : Fork} {N : Naming} {K : Pairing}

/-! ## Types -/

theorem optional_alongside {s : Symbol} (hs : F.Blind (.symbol s)) (K : Pairing) (r r' : Reader) :
    (optional s).Alongside F N K (fun _ => Option.Rel fun _ _ => True) (optional s) r r' := by
  refine (Alongside.accept hs r r').bind fun L b b' _ _ _ hb => ?_
  subst hb
  exact .ite (fun _ => .pure (.some trivial)) fun _ => .pure .none

/-- Repeated steps whose results do not matter. -/
theorem many_alongside {item : Parse (Option Unit)}
    (hadvances : ∀ r, item.Agrees item r fun o => o.isSome = true)
    (h : ∀ K r r', item.Alongside F N K (fun _ => Option.Rel fun _ _ => True) item r r')
    (r r' : Reader) :
    (do return (← many item).length : Parse Nat).Alongside F N K (fun _ n n' => n = n')
      (do return (← many item).length) r r' :=
  (Alongside.many (.of_agrees hadvances) (.of_agrees hadvances) ⟨fun _ _ => trivial⟩ h r r').bind
    fun _ _ _ _ _ _ hitems => .pure hitems.length_eq

theorem stars_alongside (r r' : Reader) :
    stars.Alongside F N K (fun _ n n' => n = n') stars r r' :=
  many_alongside (optional_agrees .star) (optional_alongside (Fork.blind_of_mayPart rfl)) r r'

theorem longItem_alongside (K : Pairing) (r r' : Reader) :
    longItem.Alongside F N K (fun _ => Option.Rel fun _ _ => True) longItem r r' := by
  have hblind (base : BaseType) : F.Blind (.keyword (.type base)) := Fork.blind_of_mayPart rfl
  refine (Alongside.acceptKind (hblind .long) rfl r r').bind fun L b b' r₁ r₁' _ hb => ?_
  subst hb
  refine .ite (fun _ => .pure (.some trivial)) fun _ => ?_
  refine (Alongside.acceptKind (hblind .int) rfl r₁ r₁').bind fun M b b' _ _ _ hb => ?_
  subst hb
  exact .ite (fun _ => .pure (.some trivial)) fun _ => .pure .none

theorem longRest_alongside (r r' : Reader) :
    longRest.Alongside F N K (fun _ _ _ => True) longRest r r' :=
  (Alongside.many (.of_agrees longItem_agrees) (.of_agrees longItem_agrees) ⟨fun _ _ => trivial⟩
    longItem_alongside r r').bind fun _ _ _ _ _ _ _ => .pure trivial

theorem typeName_alongside (r r' : Reader) :
    typeName.Alongside F N K (fun _ t t' => t = t') typeName r r' := by
  refine .get fun hr => ?_
  have hbase : r.current.kind.baseType? = r'.current.kind.baseType? := by
    refine hr.kind_congr _ fun k hk => (?_ : _ = none)
    rcases Token.Kind.mayPart_cases hk with rfl | rfl | rfl | rfl | rfl <;> rfl
  simp only [← hbase]
  split
  · next base hword =>
    have hkind := keyword_of_baseType hword
    have hkind' := keyword_of_baseType (hbase ▸ hword)
    refine (Alongside.advance (hkind.trans hkind'.symm) (by rw [hkind]; rfl)).bind
      fun L _ _ r₁ r₁' _ _ => ?_
    have hstars (M : Pairing) (r r' : Reader) :
        (do return ⟨base, ← stars⟩ : Parse VarType).Alongside F N M (fun _ t t' => t = t')
          (do return ⟨base, ← stars⟩) r r' :=
      (stars_alongside r r').bind fun _ n n' _ _ _ hn => .pure (congrArg _ hn)
    split
    · exact (longRest_alongside r₁ r₁').bind fun M _ _ r₂ r₂' _ _ => hstars M r₂ r₂'
    · exact hstars L r₁ r₁'
  · exact .fails_left (.fail _ r)

/-! ## Parts of declarations -/

theorem parameterBracket_alongside (K : Pairing) (r r' : Reader) : parameterBracket.Alongside F N K
    (fun _ => Option.Rel fun _ _ => True) parameterBracket r r' := by
  have hclose (M : Pairing) (r r' : Reader) :
      (do expect .rightBracket; return some () : Parse (Option Unit)).Alongside F N M
        (fun _ => Option.Rel fun _ _ => True) (do expect .rightBracket; return some ()) r r' :=
    (Alongside.expect _ _ r r').bind fun _ _ _ _ _ _ _ => .pure (.some trivial)
  refine (Alongside.accept (Fork.blind_of_mayPart rfl) r r').bind fun L b b' r₁ r₁' _ hb => ?_
  subst hb
  refine .ite (fun _ => .get fun hr₁ => ?_) fun _ => .pure .none
  dsimp only
  rw [hr₁.seesSymbol_eq (Fork.blind_of_mayPart rfl)]
  split
  · exact (expression_alongside L r₁ r₁').bind fun M _ _ r₂ r₂' _ _ => hclose M r₂ r₂'
  · exact hclose L r₁ r₁'

theorem parameterBrackets_alongside (r r' : Reader) :
    parameterBrackets.Alongside F N K (fun _ n n' => n = n') parameterBrackets r r' :=
  many_alongside parameterBracket_agrees parameterBracket_alongside r r'

theorem arrayBracket_alongside (K : Pairing) (r r' : Reader) : arrayBracket.Alongside F N K
    (fun _ => Option.Rel fun _ _ => True) arrayBracket r r' := by
  refine (Alongside.accept (Fork.blind_of_mayPart rfl) r r').bind fun L b b' r₁ r₁' _ hb => ?_
  subst hb
  refine .ite (fun _ => ?_) fun _ => .pure .none
  refine (expression_alongside L r₁ r₁').bind fun M _ _ r₂ r₂' _ _ => ?_
  exact (Alongside.expect _ _ r₂ r₂').bind fun _ _ _ _ _ _ _ => .pure (.some trivial)

theorem arrayBrackets_alongside (r r' : Reader) :
    arrayBrackets.Alongside F N K (fun _ n n' => n = n') arrayBrackets r r' :=
  many_alongside arrayBracket_agrees arrayBracket_alongside r r'

theorem initializer_alongside (r r' : Reader) :
    initializer.Alongside F N K (fun L => Option.Rel (Expr.Twin L)) initializer r r' := by
  refine .behindSymbol (Fork.blind_of_mayPart rfl) Expr.Twin.lasting.option .none
    (fun L r r' _ => ?_) r r'
  exact (expression_alongside L r r').bind fun _ _ _ _ _ _ hxy => .pure (.some hxy)

end Grammar

/-! ## Declarations -/

/-- References to corresponding variables of one type. -/
def Pairing.TypedRef (K : Pairing) (v w : VarRef) : Prop := K.SameRef v w ∧ K.typed v.id w.id

theorem Pairing.TypedRef.mono {K L : Pairing} {v w : VarRef} (h : K.TypedRef v w) (hle : K.Le L) :
    L.TypedRef v w := ⟨h.1.mono hle, hle.typed _ _ h.2⟩

theorem Pairing.TypedRef.same {exact : Prop} {K : Pairing} {v w : VarRef} (h : K.TypedRef v w) :
    K.Same exact (fun σ => v.relabel σ.vars) fun τ => w.relabel τ.vars := by
  intro σ τ hagree
  dsimp only
  rw [VarRef.relabel, VarRef.relabel, h.1.1, hagree.vars _ _ h.1.2]

/-- The declarators are the same but for spans, and their variables have one type. -/
structure Declarator.Twin (K : Pairing) (d e : Declarator) : Prop where
  var : K.TypedRef d.var e.var
  value : Option.Rel (Expr.Twin K) d.value e.value

theorem Declarator.Twin.lasting : Pairing.Lasting Declarator.Twin :=
  ⟨fun hle h => ⟨h.var.mono hle, Expr.Twin.lasting.option.mono hle h.value⟩⟩

namespace Grammar

open Parse

variable {exact : Prop} {F : Fork} {N : Naming} {K : Pairing} {d : Nat}

namespace Handling

theorem declarator_alongside (type : VarType) (K : Pairing) (r r' : Reader) :
    (strict.declarator type).Alongside F (.inScopes exact d) K Declarator.Twin
      (strict.declarator type) r r' := by
  refine .get fun _ => (stars_alongside r r').bind fun L n n' r₁ r₁' _ hn => .get fun _ => ?_
  subst hn
  refine (Alongside.name _ r₁ r₁').bind fun L name name' r₂ r₂' _ hname => ?_
  subst hname
  refine (arrayBrackets_alongside r₂ r₂').bind fun L k k' r₃ r₃' _ hk => ?_
  subst hk
  refine (initializer_alongside r₃ r₃').bind fun L x x' r₄ r₄' _ hx => ?_
  refine (Alongside.declareOnce name _ _ _ r₄ r₄').bind fun M v v' _ _ hle hv => ?_
  exact .get fun _ => .pure ⟨hv, Expr.Twin.lasting.option.mono hle hx⟩

theorem declaration_alongside (r r' : Reader) : strict.declaration.Alongside F (.inScopes exact d) K
    (fun L => List.Forall₂ (Declarator.Twin L)) strict.declaration r r' := by
  refine (typeName_alongside r r').bind fun L t t' r₁ r₁' _ ht => ?_
  subst ht
  have hadvances : (separated (strict.declarator t)).Advances :=
    .separated fun r => declarator_consumes r t
  refine (Alongside.commaSeparated hadvances hadvances Declarator.Twin.lasting
    (declarator_alongside t) r₁ r₁').bind fun M ds ds' r₂ r₂' _ hds => ?_
  exact (Alongside.expect _ _ r₂ r₂').bind fun M' _ _ _ _ hle _ =>
    .pure (hds.imp fun _ _ h => Declarator.Twin.lasting.mono hle h)

theorem parameter_alongside (type : VarType) (K : Pairing) (r r' : Reader) :
    (strict.parameter type).Alongside F (.inScopes exact d) K Pairing.TypedRef
      (strict.parameter type) r r' := by
  refine (stars_alongside r r').bind fun L n n' r₁ r₁' _ hn => .get fun _ => ?_
  subst hn
  refine (Alongside.name _ r₁ r₁').bind fun L name name' r₂ r₂' _ hname => ?_
  subst hname
  refine (parameterBrackets_alongside r₂ r₂').bind fun L k k' r₃ r₃' _ hk => ?_
  subst hk
  exact .declareOnce name _ _ _ r₃ r₃'

theorem parameterItem_advances : strict.parameterItem.Advances :=
  .behindSymbol .comma fun r => (typeName_consumes r).bind fun _ r₁ _ ht =>
    (parameter_consumes r₁ ht).bind fun _ _ _ _ => .pure trivial

theorem parameterItem_alongside (K : Pairing) (r r' : Reader) :
    strict.parameterItem.Alongside F (.inScopes exact d) K
      (fun L => Option.Rel (Pairing.TypedRef L)) strict.parameterItem r r' := by
  refine (Alongside.accept (Fork.blind_of_mayPart rfl) r r').bind fun L b b' r₁ r₁' _ hb => ?_
  subst hb
  refine .ite (fun _ => ?_) fun _ => .pure .none
  refine (typeName_alongside r₁ r₁').bind fun L t t' r₂ r₂' _ ht => ?_
  subst ht
  exact (parameter_alongside t L r₂ r₂').bind fun _ _ _ _ _ _ hv => .pure (.some hv)

/-- Where the texts part no list of parameters ends. -/
theorem parameters_alongside (hF : F.Blind (.symbol .rightParen)) (r r' : Reader) :
    strict.parameters.Alongside F (.inScopes exact d) K (fun L => List.Forall₂ (Pairing.TypedRef L))
      strict.parameters r r' := by
  have hlasting : Pairing.Lasting Pairing.TypedRef := ⟨fun hle h => h.mono hle⟩
  refine .get fun hr => ?_
  have hvoid : r.seesKeyword (.type .void) = r'.seesKeyword (.type .void) :=
    hr.sees_eq (Fork.blind_of_mayPart rfl)
  rw [hr.seesSymbol_eq hF]
  refine .ite (fun _ => .pure .nil) fun _ => ?_
  refine (typeName_alongside r r').bind fun L t t' r₁ r₁' _ ht => .get fun hr₁ => ?_
  subst ht
  rw [hvoid, hr₁.seesSymbol_eq hF]
  refine .ite (fun _ => .pure .nil) fun _ => ?_
  refine (parameter_alongside t L r₁ r₁').bind fun M v v' r₂ r₂' _ hv => ?_
  refine (Alongside.many parameterItem_advances parameterItem_advances hlasting
    parameterItem_alongside r₂ r₂').bind fun M vs vs' _ _ hle hvs => .pure ?_
  exact .cons (hv.mono hle) hvs

end Handling

end Grammar

/-! ## Statements with corresponding variables -/

theorem Expr.Twin.same {exact : Prop} {K : Pairing} {x y : Expr} (h : x.Twin K y) :
    K.Same exact (fun σ => x.relabel σ.vars) fun τ => y.relabel τ.vars :=
  fun σ τ hagree => h σ.vars τ.vars hagree.vars

theorem Expr.Twin.same_option {exact : Prop} {K : Pairing} {x y : Option Expr}
    (h : Option.Rel (Expr.Twin K) x y) :
    K.Same exact (fun σ => x.map (Expr.relabel σ.vars)) fun τ => y.map (Expr.relabel τ.vars) := by
  refine .option ?_
  cases h with
  | none => exact .none
  | some hxy => exact .some hxy.same

theorem Declarator.Twin.same {exact : Prop} {K : Pairing} {d e : Declarator}
    (h : Declarator.Twin K d e) :
    K.Same exact (fun σ => d.relabel σ) fun τ => e.relabel τ := by
  intro σ τ hagree
  have hvar := h.var.same σ τ hagree
  have hvalue := Expr.Twin.same_option h.value σ τ hagree
  exact congrArg₂ (fun v x => (⟨v, x, .none⟩ : Declarator)) hvar hvalue

/-- The attributes of two statements are the same but for spans, with corresponding variables. -/
def Attribute.Alike (exact : Prop) (K : Pairing) (marks marks' : List Attribute) : Prop :=
  K.Same exact (fun σ => marks.map (Attribute.relabel σ)) fun τ => marks'.map (Attribute.relabel τ)

namespace Attribute.Alike

variable {exact : Prop} {K L : Pairing} {marks marks' more more' : List Attribute}

theorem mono (h : Alike exact K marks marks') (hle : K.Le L) : Alike exact L marks marks' :=
  Pairing.Same.mono h hle

theorem nil : Alike exact K [] [] := fun _ _ _ => rfl

theorem append (h : Alike exact K marks marks') (h' : Alike exact K more more') :
    Alike exact K (marks ++ more) (marks' ++ more') := by
  intro σ τ hagree
  have hfirst := h σ τ hagree
  have hrest := h' σ τ hagree
  dsimp only at hfirst hrest ⊢
  rw [List.map_append, List.map_append, hfirst, hrest]

theorem of_twins (h : List.Forall₂ (Twin K) marks marks') : Alike exact K marks marks' := by
  intro σ τ hagree
  have hmarks : ∀ i j, K.pairs i j → σ.marks i = τ.marks j := by
    rcases hagree.marks with ⟨-, hmarks⟩ | hmarks
    · exact hmarks
    · exact fun i j _ => hmarks i j
  dsimp only
  induction h with
  | nil => rfl
  | @cons a b _ _ hab _ ih =>
    rw [List.map_cons, List.map_cons, ih, relabel, relabel, hab.1,
      Expr.Twin.map_relabel hab.2 hmarks]

end Attribute.Alike

theorem Stmt.Alike.of_declarators {exact : Prop} {K : Pairing} {ds es : List Declarator}
    {h h' : StmtHead} (hh : AlikeHeads exact K h h')
    (hds : List.Forall₂ (Declarator.Twin K) ds es) :
    (Stmt.declaration h ds).Alike exact K (.declaration h' es) := by
  refine .declaration hh (.map (hds.imp fun _ _ hde => hde.same)) fun e he => ?_
  cases hds with
  | nil => cases he
  | @cons d _ _ _ hde _ =>
    obtain rfl := List.mem_singleton.mp he
    exact ⟨d.var.id, hde.var.2⟩

namespace Grammar

open Parse

variable {exact : Prop} {F : Fork} {N : Naming} {K : Pairing} {d : Nat}

/-! ## Clauses of headers -/

variable (exact) in
theorem clause_alongside (stops : List Symbol) (r r' : Reader) :
    (clause stops).Alongside F N K (Stmt.Alike exact) (clause stops) r r' := by
  have hstops (hkind : r.current.kind = r'.current.kind) :
      stops.any r.seesSymbol = true ↔ stops.any r'.seesSymbol = true := by
    have hsees : r.seesSymbol = r'.seesSymbol := by
      funext s
      rw [Reader.seesSymbol, Reader.seesSymbol, Reader.sees, Reader.sees, hkind]
    rw [hsees]
  refine .get fun _ => .iteOrFails hstops (.pure (.empty Attribute.Alike.nil)) ?_
    (fun hends => .bind (expression_fails hends)) fun hends => .bind (expression_fails hends)
  exact (expression_alongside K r r').bind fun _ _ _ _ _ _ hxy =>
    .pure (.expression Attribute.Alike.nil hxy.same)

theorem optionalValue_alongside (r r' : Reader) : optionalValue.Alongside F N K
    (fun L => Option.Rel (Expr.Twin L)) optionalValue r r' := by
  have hsees (hkind : r.current.kind = r'.current.kind) :
      r.seesSymbol .semicolon = true ↔ r'.seesSymbol .semicolon = true := by
    rw [Reader.seesSymbol, Reader.seesSymbol, Reader.sees, Reader.sees, hkind]
  refine .get fun _ => .iteOrFails hsees (.pure .none) ?_
    (fun hends => .bind (expression_fails hends)) fun hends => .bind (expression_fails hends)
  exact (expression_alongside K r r').bind fun _ _ _ _ _ _ hxy => .pure (.some hxy)

theorem condition_alongside (place : Place) {r r' : Reader}
    (hkind : r.current.kind = r'.current.kind) (hgo : r.current.kind.mayMeet = false) :
    (condition place).Alongside F N K Expr.Twin (condition place) r r' := by
  refine (Alongside.advance hkind hgo).bind fun L _ _ r₁ r₁' _ _ => ?_
  refine (Alongside.expect _ _ r₁ r₁').bind fun L _ _ r₂ r₂' _ _ => ?_
  refine (expression_alongside L r₂ r₂').bind fun M _ _ r₃ r₃' _ hxy => ?_
  exact (Alongside.expect _ _ r₃ r₃').bind fun _ _ _ _ _ hle _ => .pure (hxy.mono hle)

namespace Handling

theorem initClause_fails {r : Reader} (h : r.current.kind.mayPart = true)
    (hne : r.current.kind ≠ .symbol .semicolon) : strict.initClause.Fails r := by
  have haccept : accept .semicolon r = (.ok false, r) := acceptKind_of_ne hne
  have htype : ¬ r.current.kind.isType = true := by
    rcases Token.Kind.mayPart_cases h with hkind | hkind | hkind | hkind | hkind
    all_goals
      rw [hkind]
      exact Bool.false_ne_true
  refine .get (.behind haccept (.get ?_))
  rw [if_neg htype]
  exact .bind (expression_fails h)

theorem initClause_alongside (r r' : Reader) :
    strict.initClause.Alongside F (.inScopes exact d) K (Stmt.Alike exact) strict.initClause
      r r' := by
  refine .of_kind_eq (fun hkind => .get fun _ => ?_) initClause_fails
  refine (Alongside.acceptKind_of_iff (by rw [hkind]) rfl).bind fun L b b' r₁ r₁' _ hb => ?_
  subst hb
  refine .ite (fun _ => .pure (.empty Attribute.Alike.nil)) fun _ => .get fun hr₁ => ?_
  have htype : r₁.current.kind.isType = r₁'.current.kind.isType := by
    refine hr₁.kind_congr _ fun k hk => (?_ : _ = false)
    rcases Token.Kind.mayPart_cases hk with rfl | rfl | rfl | rfl | rfl <;> rfl
  rw [htype]
  refine .ite (fun _ => ?_) fun _ => ?_
  · exact (declaration_alongside r₁ r₁').bind fun M ds ds' _ _ _ hds =>
      .get fun _ => .pure (.of_declarators Attribute.Alike.nil hds)
  · refine (expression_alongside L r₁ r₁').bind fun M x y r₂ r₂' _ hxy => ?_
    exact (Alongside.expect _ _ r₂ r₂').bind fun M' _ _ _ _ hle _ =>
      .pure (.expression Attribute.Alike.nil (hxy.mono hle).same)

end Handling

end Grammar

end LoopNest
