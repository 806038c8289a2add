import LoopNest.Proofs.Grammar.AcceptExpr
import LoopNest.Proofs.Grammar.Declared

/-!
# The types of declared variables

A declaration has the words of a type and then its declarators, each with stars in front of its name
and brackets behind it. The stars of the first declarator count for all variables of a declaration.

* `Grammar.Written`: a declarator as it stands among the tokens.
* `Grammar.WrittenDeclaration`: a declaration as it stands among the tokens.
* `Grammar.declaration_written`: the types that a declaration gives to its variables.
* `Parse.Reaches`: a step goes well, whatever problems it notes.
* `Grammar.declaration_alone`: the type of a variable that is declared alone.
* `Program.declared_types`: the types of the variables of a program.
-/

namespace LoopNest

namespace Grammar

/-! ## Declarations as they are written -/

/-- The words of a type without stars. Only behind `long` there may be further ones. -/
inductive IsBase : List Token → BaseType → Prop
  | words {t : Token} {base : BaseType} {ts : List Token} (ht : t.kind = .keyword (.type base))
      (hlong : ts ≠ [] → base = .long) (hts : ∀ t ∈ ts, IsLongWord t) : IsBase (t :: ts) base

theorem DerivesType.exists_base {ts : List Token} {type : VarType} (h : DerivesType ts type) :
    ∃ us vs, ts = us ++ vs ∧ IsBase us type.base ∧ IsStars vs type.pointers := by
  obtain ⟨ht, hlong, hts, hus⟩ := h
  exact ⟨_, _, rfl, .words ht hlong hts, hus⟩

/-- The tokens are a declarator of this name, with so many stars and brackets. -/
inductive IsDeclarator : List Token → Token → Nat → Nat → Prop
  | named {ts us vs : List Token} {n : Token} {stars : Nat} {sizes : List Unit}
      {value : Option Expr} (hts : IsStars ts stars) (hn : n.kind = .identifier)
      (hus : Rows (fun ws _ => DerivesSize ws) us sizes) (hvs : DerivesInitializer vs value)
      (hfit : IntegersFit (us ++ vs)) :
      IsDeclarator (ts ++ n :: (us ++ vs)) n stars sizes.length

/-- Further stars in front of a declarator belong to it. -/
theorem IsDeclarator.behind {ts us : List Token} {n : Token} {k stars brackets : Nat}
    (h : IsDeclarator us n stars brackets) (hts : IsStars ts k) :
    IsDeclarator (ts ++ us) n (k + stars) brackets := by
  obtain ⟨hus, hn, hsizes, hvalue, hfit⟩ := h
  rw [← List.append_assoc]
  refine .named ⟨?_, ?_⟩ hn hsizes hvalue hfit
  · rw [List.length_append, hts.1, hus.1]
  · exact List.forall_mem_append.mpr ⟨hts.2, hus.2⟩

/-- A declarator as it stands among the tokens. -/
structure Written where
  tokens : List Token
  name : Token
  stars : Nat
  brackets : Nat
  isDeclarator : IsDeclarator tokens name stars brackets

/-- A declarator with further stars in front of it. -/
def Written.behind (w : Written) {ts : List Token} {n : Nat} (hts : IsStars ts n) : Written :=
  ⟨ts ++ w.tokens, w.name, n + w.stars, w.brackets, w.isDeclarator.behind hts⟩

/-- A declaration as it stands among the tokens: the words of a type, the declarators with commas
between them, and a semicolon. The stars behind the words belong to the first declarator. -/
structure WrittenDeclaration where
  base : BaseType
  words : List Token
  first : Written
  rest : List Written
  list : List Token
  semicolon : Token
  isBase : IsBase words base
  commas : Commas ((first :: rest).map Written.tokens) list
  isSemicolon : semicolon.kind = .symbol .semicolon

namespace WrittenDeclaration

def tokens (w : WrittenDeclaration) : List Token := w.words ++ (w.list ++ [w.semicolon])

/-- The type that the words of the declaration and a declarator tell: a pointer for each star in
front of the name and for each bracket behind it. -/
def typeOf (w : WrittenDeclaration) (d : Written) : VarType := ⟨w.base, d.stars + d.brackets⟩

/-- The names with the types that they are given. The stars of the first declarator count for those
behind it as well. -/
def given (w : WrittenDeclaration) : List (Token × VarType) :=
  (w.first.name, w.typeOf w.first) ::
    w.rest.map fun d => (d.name, (w.typeOf d).pointTo w.first.stars)

end WrittenDeclaration

end Grammar

/-- The variable is the one that the name declares, with this type. -/
def VarTable.Records (vars : VarTable) (v : VarRef) (name : Token) (type : VarType) : Prop :=
  v.name = name.lexeme ∧ vars.get? v.id = some ⟨name.lexeme, type, name.span, false⟩

theorem VarTable.Records.mono {t u : VarTable} {v : VarRef} {name : Token} {type : VarType}
    (h : t.Records v name type) (hext : t.Extends u) : u.Records v name type := by
  have hlt : v.id < t.size := (Array.getElem?_eq_some_iff.mp h.2).1
  exact ⟨h.1, (hext.get?_eq _ hlt).trans h.2⟩

/-! ## What a declaration is read from -/

namespace Grammar

open Parse

variable {items : List Item} (r : Reader)

theorem declare_written (n : String) (type : VarType) (span : Span) :
    (Parse.declare n type span).Ensures items r fun v r' => r'.remaining = r.remaining ∧
      ∀ t : Token, t.lexeme = n → t.span = span → r'.vars.Records v t type := by
  have hkeep : (Parse.declare n type span r).2.remaining = r.remaining := by
    rw [declare_apply]
    dsimp only
    split <;> rfl
  intro hclean
  obtain ⟨hstart, hrun⟩ := Ensures.declare n type span r hclean
  refine ⟨hstart, fun hsound v hv => ?_⟩
  obtain ⟨hsound', hleads, hname, -, -, hentry⟩ := hrun hsound v hv
  refine ⟨hsound', hleads, hkeep, ?_⟩
  rintro t rfl rfl
  exact ⟨hname, hentry⟩

/-- A declarator is read from one that stands among the tokens. Its type is told by its stars and
brackets, on top of the type that was read before. -/
theorem declarator_written (type : VarType) : (declarator type).Ensures items r fun d r' =>
    ∃ w : Written, r.remaining = w.tokens.map .token ++ r'.remaining ∧
      (r.current.kind ≠ .symbol .star → w.stars = 0) ∧
      r'.vars.Records d.var w.name (type.pointTo (w.stars + w.brackets)) := by
  unfold declarator
  refine (currentSpan_ensures r).bind fun start r₁ => ?_
  refine ((stars_ensures r₁).consumes (stars_consumes r₁)).bind fun depth r₂ => ?_
  refine (currentSpan_ensures r₂).bind fun span r₃ => ?_
  refine ((name_ensures r₃ _).consumes (Consumes.name _ r₃)).bind fun name r₄ => ?_
  refine ((arrayBrackets_ensures r₄).consumes (arrayBrackets_consumes r₄)).bind fun n r₅ => ?_
  refine ((initializer_ensures r₅).consumes (initializer_consumes r₅)).bind fun value r₆ => ?_
  refine (declare_written r₆ _ _ _).bind fun v r₇ => ?_
  refine (spanFrom_ensures r₇ start).bind fun span r₈ => .pure ?_
  intro _ _ _ _ hend _ _ _ hv _ _ _ hvalue _ _ _ hsizes _ _ _ hname _ _ _ hspan _ _ _ hstars
    _ _ _ hstart
  obtain ⟨rfl, -⟩ := hend
  obtain ⟨rfl, rfl⟩ := hspan
  obtain ⟨rfl, -⟩ := hstart
  obtain ⟨⟨-, hkind, rfl⟩, _, hremaining₃, rfl⟩ := hname
  obtain ⟨-, ts, hremaining₁, hts⟩ := hstars
  obtain ⟨-, us, hremaining₄, sizes, rfl, hus, hfit⟩ := hsizes
  obtain ⟨-, vs, hremaining₅, hvs⟩ := hvalue
  obtain ⟨hremaining₆, hv⟩ := hv
  have hfits : IntegersFit (us ++ vs) := IntegersFit.append_iff.mpr ⟨hfit, hvs.fit⟩
  refine ⟨⟨_, _, _, _, .named hts hkind hus hvs.derives hfits⟩, ?_, fun hstar => ?_, hv _ rfl rfl⟩
  · rw [hremaining₁, hremaining₃, hremaining₄, hremaining₅, ← hremaining₆]
    simp
  · cases ts with
    | nil => exact hts.1.symm
    | cons t ts =>
      obtain ⟨hcurrent, -⟩ := List.cons.inj hremaining₁
      rw [Item.token.inj hcurrent] at hstar
      exact absurd (hts.2 t List.mem_cons_self) hstar

/-- The tokens are a comma with the declarator behind it. -/
def IsBehindComma (ts : List Token) (w : Written) : Prop :=
  ∃ t, ts = t :: w.tokens ∧ t.kind = .symbol .comma

/-- The variable has the name of the declarator and the type that goes with it. -/
def Written.Declares (w : Written) (type : VarType) (vars : VarTable) (d : Declarator) : Prop :=
  vars.Records d.var w.name (type.pointTo (w.stars + w.brackets))

/-- The tokens that are taken are declarators, each with a comma in front of it. -/
def TakesDeclarators (type : VarType) (r : Reader) (ds : List Declarator) (r' : Reader) : Prop :=
  ∃ (us : List Token) (ws : List Written), r.remaining = us.map .token ++ r'.remaining ∧
    Rows IsBehindComma us ws ∧ List.Forall₂ (fun d w => w.Declares type r'.vars d) ds ws

theorem TakesDeclarators.cons {type : VarType} {r r₁ r₂ : Reader} {d : Declarator}
    {ds : List Declarator} (hleads : r₁.Leads r₂)
    (hd : ∃ (ts : List Token) (w : Written), r.remaining = ts.map .token ++ r₁.remaining ∧
      IsBehindComma ts w ∧ w.Declares type r₁.vars d)
    (hds : TakesDeclarators type r₁ ds r₂) : TakesDeclarators type r (d :: ds) r₂ := by
  obtain ⟨ts, w, hremaining, hts, hd⟩ := hd
  obtain ⟨us, ws, hremaining₁, hus, hds⟩ := hds
  refine ⟨ts ++ us, w :: ws, ?_, .cons hts hus, .cons (hd.mono hleads.vars) hds⟩
  rw [hremaining, hremaining₁, List.map_append, List.append_assoc]

theorem nextDeclarator_written (type : VarType) :
    (separated (declarator type)).Ensures items r fun o r' => o.elim (r' = r) fun d =>
      ∃ (ts : List Token) (w : Written), r.remaining = ts.map .token ++ r'.remaining ∧
        IsBehindComma ts w ∧ w.Declares type r'.vars d := by
  refine ((Ensures.acceptKind _ r).consumes (Consumes.acceptKind (by simp) r)).bind
    fun accepted r₁ => ?_
  cases accepted with
  | false => exact .pure fun _ _ _ _ h => h.1.2.1
  | true =>
    refine (declarator_written r₁ type).bind fun d r₂ => .pure ?_
    rintro _ _ _ _ ⟨w, hremaining₁, -, hd⟩ _ _ _ ⟨-, _, hremaining, t, rfl, ht⟩
    refine ⟨t :: w.tokens, w, ?_, ⟨t, rfl, ht⟩, hd⟩
    rw [hremaining, hremaining₁]
    rfl

/-- The declarators behind the first one. -/
theorem declarators_written (type : VarType) : (many (separated (declarator type))).Ensures items r
    fun ds r' => TakesDeclarators type r ds r' :=
  Ensures.many (I := TakesDeclarators type) (fun r => nextDeclarator_written r type)
    (fun _ => ⟨[], [], rfl, .nil, .nil⟩) .cons r

/-- A declarator and a row of commas with others are several ones with commas between them. -/
theorem commas_tokens {ts us : List Token} {w : Written} {ws : List Written} (hts : ts = w.tokens)
    (hrows : Rows IsBehindComma us ws) : Commas ((w :: ws).map Written.tokens) (ts ++ us) := by
  have hrows : Rows (fun vs w => ∃ t ts, vs = t :: ts ∧ t.kind = .symbol .comma ∧ ts = w.tokens)
      us ws := hrows.mono fun _ w ⟨t, hvs, ht⟩ => ⟨t, w.tokens, hvs, ht, rfl⟩
  obtain ⟨items, -, hws, hcommas, hitems⟩ :=
    Commas.of_rows (S := fun ts (w : Written) => ts = w.tokens) hts hrows
  have htokens : items.map Prod.fst = (w :: ws).map Written.tokens := by
    rw [hws, List.map_map]
    exact List.map_congr_left hitems
  exact htokens ▸ hcommas

/-- A declaration is read from one that stands among the tokens, and gives its variables the types
that go with it. -/
theorem declaration_written : declaration.Ensures items r fun ds r' =>
    ∃ w : WrittenDeclaration, r.remaining = w.tokens.map .token ++ r'.remaining ∧
      List.Forall₂ (fun d g => r'.vars.Records d.var g.1 g.2) ds w.given := by
  simp only [declaration, commaSeparated_eq]
  refine ((typeName_ensures r).consumes ((typeName_consumes r).and (typeName_stop r))).bind
    fun type r₁ => ?_
  refine Ensures.bind (Q := fun ds r' => ∃ (w : Written) (us : List Token) (ws : List Written),
      r₁.remaining = (w.tokens ++ us).map .token ++ r'.remaining ∧
      (r₁.current.kind ≠ .symbol .star → w.stars = 0) ∧
      Rows IsBehindComma us ws ∧
      List.Forall₂ (fun d w => w.Declares type r'.vars d) ds (w :: ws)) ?_ fun ds r₂ => ?_
  · refine (declarator_written r₁ type).bind fun d r₂ => ?_
    refine (declarators_written r₂ type).bind fun ds r₃ => .pure ?_
    rintro _ _ _ hleads ⟨us, ws, hremaining₂, hrows, hds⟩ _ _ _ ⟨w, hremaining₁, hstar, hd⟩
    refine ⟨w, us, ws, ?_, hstar, hrows, .cons (hd.mono hleads.vars) hds⟩
    rw [hremaining₁, hremaining₂, List.map_append, List.append_assoc]
  · refine ((Ensures.expect _ _ r₂).consumes (Consumes.expect _ _ r₂)).bind fun _ r₃ => .pure ?_
    rintro _ _ _ hleads ⟨-, _, hremaining₂, t, rfl, ht⟩ _ _ _
      ⟨w, us, ws, hremaining₁, hstar, hrows, hds⟩ _ _ _ ⟨-, vs, hremaining, hvs, hstop⟩
    obtain ⟨words, stars, rfl, hwords, hstars⟩ := hvs.exists_base
    have hfirst : (w.behind hstars).tokens = stars ++ w.tokens := rfl
    have hcommas := commas_tokens hfirst.symm hrows
    refine ⟨⟨_, words, w.behind hstars, ws, _, t, hwords, hcommas, ht⟩, ?_, ?_⟩
    · rw [hremaining, hremaining₁, hremaining₂]
      simp [WrittenDeclaration.tokens]
    · -- where no star is left, the declarator itself has none
      have hnone : w.stars = 0 := hstar (hstop r₁.current r₁.items hremaining)
      obtain ⟨d, rest, hd, hrest, rfl⟩ := List.forall₂_cons_right_iff.mp hds
      refine .cons ?_ (List.forall₂_map_right_iff.mpr (hrest.imp fun d v hd => ?_))
      · have htype : type.pointTo (w.stars + w.brackets) =
            ⟨type.base, type.pointers + w.stars + w.brackets⟩ := by
          rw [VarType.pointTo, Nat.add_assoc]
        rw [Written.Declares, htype] at hd
        exact hd.mono hleads.vars
      · have htype : type.pointTo (v.stars + v.brackets) =
            (⟨type.base, v.stars + v.brackets⟩ : VarType).pointTo type.pointers := by
          rw [VarType.pointTo, VarType.pointTo, Nat.add_comm]
        rw [Written.Declares, htype] at hd
        have hall : (w.behind hstars).stars = type.pointers := congrArg (type.pointers + ·) hnone
        show r₃.vars.Records d.var v.name (VarType.pointTo _ (w.behind hstars).stars)
        rw [hall]
        exact hd.mono hleads.vars

end Grammar

/-! ## Variables that are declared alone -/

namespace Parse

variable {α β : Type}

/-- The step goes well, and the result and the reader behind the step satisfy `Q`. -/
def Reaches (step : Parse α) (r : Reader) (Q : α → Reader → Prop) : Prop :=
  ∃ a r', step r = (.ok a, r') ∧ Q a r'

namespace Reaches

variable {r : Reader} {step : Parse α} {Q : α → Reader → Prop}

theorem pure {a : α} (h : Q a r) : Reaches (Pure.pure a) r Q := ⟨a, r, rfl, h⟩

theorem bind {next : α → Parse β} {R : β → Reader → Prop} (h : step.Reaches r Q)
    (hnext : ∀ a r₁, Q a r₁ → (next a).Reaches r₁ R) : (step >>= next).Reaches r R := by
  obtain ⟨a, r₁, hrun, hq⟩ := h
  obtain ⟨b, r₂, hrun₂, hr⟩ := hnext a r₁ hq
  refine ⟨b, r₂, ?_, hr⟩
  rw [bind_apply, hrun]
  exact hrun₂

theorem get {next : Reader → Parse α} (h : (next r).Reaches r Q) :
    (MonadStateOf.get >>= next).Reaches r Q := h

/-- A repeated step that yields nothing. -/
theorem many_none {item : Parse (Option α)} (h : item.Reaches r fun o r' => o = none ∧ r' = r) :
    (Parse.many item).Reaches r fun as r' => as = [] ∧ r' = r := by
  refine .get (h.bind fun o r₁ ho => ?_)
  obtain ⟨rfl, rfl⟩ := ho
  exact .pure ⟨rfl, rfl⟩

end Reaches

/-- What is found is reached. -/
theorem Finds.reaches {r : Reader} {step : Parse α} {Q : α → Reader → Prop} (h : step.Finds r Q)
    (hscoped : r.Scoped) : step.Reaches r fun a r' => r'.Scoped ∧ Q a r' := by
  obtain ⟨a, r', hrun, hscoped', -, hq⟩ := h hscoped
  exact ⟨a, r', hrun, hscoped', hq⟩

end Parse

namespace Grammar

open Parse

section

variable {r : Reader} {ts us : List Token} {t : Token} {rest : List Item}

/-- A row of single tokens. -/
theorem Rows.of_forall {P : Token → Prop} (h : ∀ t ∈ ts, P t) :
    Rows (fun us t => us = [t] ∧ P t) ts ts := by
  induction ts with
  | nil => exact .nil
  | cons t ts ih =>
    obtain ⟨ht, hts⟩ := List.forall_mem_cons.mp h
    exact .cons ⟨rfl, ht⟩ (ih hts)

theorem stars_finds {n : Nat} (hts : IsStars ts n) (ht : t.kind ≠ .symbol .star)
    (hfaces : r.Faces (ts ++ t :: us) rest) :
    stars.Finds r fun k r' => k = n ∧ r'.Faces (t :: us) rest := by
  unfold stars
  refine (Finds.many (B := fun _ _ => True) (f := fun _ => ()) (g := fun _ => ()) ?_ ?_ ?_
    (fun _ _ => trivial) (Rows.of_forall hts.2) hfaces).bind fun found r₁ h₁ => .pure ⟨?_, h₁.2⟩
  · rintro _ t u vs r ⟨rfl, ht⟩ - hfaces
    refine (Finds.acceptKind hfaces ht (by simp)).bind fun b r₁ hb => ?_
    obtain ⟨rfl, h₁⟩ := hb
    exact .pure ⟨(), rfl, rfl, h₁⟩
  · intro r hfaces
    refine (Finds.acceptKind_other hfaces ht).bind fun b r₁ hb => ?_
    obtain ⟨rfl, rfl⟩ := hb
    exact .pure ⟨rfl, rfl⟩
  · rintro _ _ _ t - ⟨rfl, -⟩
    exact ⟨t, [], rfl, trivial⟩
  · have hlength := congrArg List.length h₁.1
    rw [List.length_map, List.length_map] at hlength
    exact hlength.trans hts.1

theorem longRest_finds (hts : ∀ t ∈ ts, IsLongWord t) (ht : ¬ IsLongWord t)
    (hfaces : r.Faces (ts ++ t :: us) rest) :
    longRest.Finds r fun _ r' => r'.Faces (t :: us) rest := by
  unfold longRest
  refine (Finds.many (B := fun _ _ => True) (f := fun _ => ()) (g := fun _ => ()) ?_ ?_ ?_
    (fun _ _ => trivial) (Rows.of_forall hts) hfaces).bind fun found r₁ h₁ => .pure h₁.2
  · rintro _ t u vs r ⟨rfl, ht⟩ - hfaces
    rcases ht with ht | ht
    · refine (Finds.acceptKind hfaces ht (by simp)).bind fun b r₁ hb => ?_
      obtain ⟨rfl, h₁⟩ := hb
      exact .pure ⟨(), rfl, rfl, h₁⟩
    · refine (Finds.acceptKind_other hfaces (by simp [ht])).bind fun b r₁ hb => ?_
      obtain ⟨rfl, rfl⟩ := hb
      refine (Finds.acceptKind hfaces ht (by simp)).bind fun b r₂ hb => ?_
      obtain ⟨rfl, h₁⟩ := hb
      exact .pure ⟨(), rfl, rfl, h₁⟩
  · intro r hfaces
    refine (Finds.acceptKind_other hfaces fun h => ht (.inl h)).bind fun b r₁ hb => ?_
    obtain ⟨rfl, rfl⟩ := hb
    refine (Finds.acceptKind_other hfaces fun h => ht (.inr h)).bind fun b r₂ hb => ?_
    obtain ⟨rfl, rfl⟩ := hb
    exact .pure ⟨rfl, rfl⟩
  · rintro _ _ _ t - ⟨rfl, -⟩
    exact ⟨t, [], rfl, trivial⟩

/-- The words of a type and the stars in front of a name are read as a type. -/
theorem typeName_finds {words stars : List Token} {base : BaseType} {n : Nat}
    (hwords : IsBase words base) (hstars : IsStars stars n) (ht : t.kind = .identifier)
    (hfaces : r.Faces (words ++ (stars ++ t :: us)) rest) :
    typeName.Finds r fun type r' => type = ⟨base, n⟩ ∧ r'.Faces (t :: us) rest := by
  obtain @⟨w, _, ws, hw, hlong, hws⟩ := hwords
  have hnext : ∃ u vs, stars ++ t :: us = u :: vs ∧ ¬ IsLongWord u := by
    cases stars with
    | nil => exact ⟨t, us, rfl, by simp [IsLongWord, ht]⟩
    | cons u vs => exact ⟨u, _, rfl, by simp [IsLongWord, hstars.2 u List.mem_cons_self]⟩
  obtain ⟨u, vs, hahead, hu⟩ := hnext
  rw [hahead] at hfaces
  have hne : ws ++ u :: vs ≠ [] := by simp
  refine .get ?_
  have hbase : r.current.kind.baseType? = some base := by
    rw [hfaces.current, hw]
    rfl
  have hfinish {r : Reader} (hfaces : r.Faces (u :: vs) rest) :
      (do return (⟨base, ← Grammar.stars⟩ : VarType) : Parse VarType).Finds r
        fun type r' => type = ⟨base, n⟩ ∧ r'.Faces (t :: us) rest := by
    rw [← hahead] at hfaces
    refine (stars_finds hstars (by simp [ht]) hfaces).bind fun k r₁ hk => .pure ⟨?_, hk.2⟩
    rw [hk.1]
  simp only [hbase]
  refine (Finds.advance hfaces hne).bind fun _ r₁ h₁ => ?_
  split
  · exact (longRest_finds hws hu h₁).bind fun _ r₂ h₂ => hfinish h₂
  · next hother =>
    have hnil : ws = [] := by
      by_contra hws
      exact hother (hlong hws)
    subst hnil
    exact hfinish h₁

theorem arrayBrackets_finds {sizes : List Unit} (hts : Rows (fun ws _ => DerivesSize ws) ts sizes)
    (hfit : IntegersFit ts) (ht : t.kind ≠ .symbol .leftBracket)
    (hfaces : r.Faces (ts ++ t :: us) rest) :
    arrayBrackets.Finds r fun n r' => n = sizes.length ∧ r'.Faces (t :: us) rest := by
  unfold arrayBrackets
  refine (Finds.many (B := fun _ _ => True) (f := id) (g := id) ?_ ?_ ?_ (fun _ _ => trivial)
    hts.within hfaces).bind fun found r₁ h₁ => .pure ⟨?_, h₁.2⟩
  · rintro _ ⟨⟩ u vs r ⟨⟨ho, hx, hc⟩, hsub⟩ - hfaces
    rw [List.cons_append, List.append_assoc] at hfaces
    refine (Finds.acceptKind hfaces ho (by simp)).bind fun b r₁ hb => ?_
    obtain ⟨rfl, h₁⟩ := hb
    have hfit := (hfit.mono hsub.subset).mono (List.subset_cons_self _ _)
    obtain ⟨hfit, -⟩ := IntegersFit.append_iff.mp hfit
    refine (expression_finds hx hfit (.of_closing (by simp) hc _) h₁).bind fun x r₂ h₂ => ?_
    exact (Finds.expect _ h₂.2 hc (by simp)).bind fun _ r₃ h₃ => .pure ⟨(), rfl, rfl, h₃⟩
  · intro r hfaces
    refine (Finds.acceptKind_other hfaces ht).bind fun b r₁ hb => ?_
    obtain ⟨rfl, rfl⟩ := hb
    exact .pure ⟨rfl, rfl⟩
  · rintro _ _ _ _ - ⟨⟨_, _, _⟩, -⟩
    exact ⟨_, _, rfl, trivial⟩
  · have hlength := congrArg List.length h₁.1
    rwa [List.map_id, List.map_id] at hlength

theorem initializer_finds {value : Option Expr} (hts : DerivesInitializer ts value)
    (hfit : IntegersFit ts) (ht : t.kind = .symbol .semicolon)
    (hfaces : r.Faces (ts ++ t :: us) rest) :
    initializer.Finds r fun _ r' => r'.Faces (t :: us) rest := by
  cases hts with
  | none =>
    refine (Finds.acceptKind_other hfaces (by simp [ht])).bind fun b r₁ hb => ?_
    obtain ⟨rfl, rfl⟩ := hb
    exact .pure hfaces
  | @value e ts x he hx =>
    refine (Finds.acceptKind hfaces he (by simp)).bind fun b r₁ hb => ?_
    obtain ⟨rfl, h₁⟩ := hb
    have hfit := hfit.mono (List.subset_cons_self _ _)
    have hstops : Stops 1 ts t := .of_closing (by simp) ht ts
    exact (expression_finds hx hfit hstops h₁).bind fun x r₂ h₂ => .pure h₂.2

theorem name_finds (named : Named) (ht : t.kind = .identifier) (hne : us ≠ [])
    (hfaces : r.Faces (t :: us) rest) :
    (Parse.name named).Finds r fun n r' => n = t.lexeme ∧ r'.Faces us rest := by
  refine .get ?_
  rw [if_pos (by rw [Reader.sees, hfaces.current, ht]; rfl)]
  refine (Finds.advance hfaces hne).bind fun _ r₁ h₁ => .pure ⟨?_, h₁⟩
  rw [hfaces.current]

/-- A variable is declared, be it for the first time or not. -/
theorem declare_reaches (n : String) (type : VarType) (span : Span) (hscoped : r.Scoped)
    (hfaces : r.Faces us rest) : (Parse.declare n type span).Reaches r fun v r' => r'.Scoped ∧
      r'.Faces us rest ∧ ∀ t : Token, t.lexeme = n → t.span = span → r'.vars.Records v t type := by
  let v : VarRef := ⟨r.vars.size, n⟩
  have hframes := Scopes.frames_bind_current n v hscoped.scopes
  have hsound : (⟨(r.vars.declare n type span).2, (r.scopes.bind r.scopes.current n v).frames⟩ :
      Context).Sound := by
    rw [hframes]
    refine hscoped.context.add _ ?_ fun g hg a ha => Context.mem_bindInner hg ha
    cases hfs : r.scopes.frames with
    | nil => exact absurd hfs hscoped.context.frames_ne
    | cons f fs => simp [Frame.bindInner]
  have hscopes := hscoped.scopes.bind r.scopes.current n v
  refine ⟨_, _, declare_apply n type span r, ?_, ?_, ?_⟩
  · dsimp only
    split <;> exact ⟨hscopes, hsound⟩
  · dsimp only
    split <;> exact hfaces
  · rintro t rfl rfl
    have hentry := VarTable.get?_add_self r.vars ⟨t.lexeme, type, t.span, false⟩
    dsimp only
    split <;> exact ⟨rfl, hentry⟩

/-- The symbol is passed over, and the table of variables stays. -/
theorem expect_reaches {u : Token} {s : Symbol} (place : Place) (ht : t.kind = .symbol s)
    (hfaces : r.Faces (t :: u :: us) rest) :
    (Parse.expect s place).Reaches r fun _ r' => r'.Faces (u :: us) rest ∧ r'.vars = r.vars := by
  refine .get ?_
  rw [if_pos (by rw [Reader.seesSymbol, Reader.sees, hfaces.current, ht]; exact beq_self_eq_true _)]
  obtain ⟨hok, h₁⟩ := hfaces.advance
  refine ⟨(), r.advance.2, by rw [advance_apply, hok]; rfl, h₁, ?_⟩
  unfold Reader.advance
  split <;> rfl

theorem currentSpan_reaches (r : Reader) :
    currentSpan.Reaches r fun s r' => s = r.current.span ∧ r' = r :=
  .get (.pure ⟨rfl, rfl⟩)

/-- A declarator without stars of its own. -/
theorem declarator_reaches {u : Token} {base : BaseType} {k : Nat} {sizes : List Unit}
    {vs ws : List Token} {n : Token} {value : Option Expr} (hn : n.kind = .identifier)
    (hsizes : Rows (fun ws _ => DerivesSize ws) vs sizes) (hvalue : DerivesInitializer ws value)
    (hfit : IntegersFit (vs ++ ws)) (ht : t.kind = .symbol .semicolon) (hscoped : r.Scoped)
    (hfaces : r.Faces (n :: (vs ++ (ws ++ t :: u :: us))) rest) :
    (declarator ⟨base, k⟩).Reaches r fun d r' => r'.Scoped ∧ r'.Faces (t :: u :: us) rest ∧
      r'.vars.Records d.var n ⟨base, k + sizes.length⟩ := by
  obtain ⟨hfit, hfit'⟩ := IntegersFit.append_iff.mp hfit
  obtain ⟨v, us', hahead, hv⟩ : ∃ v us', ws ++ t :: u :: us = v :: us' ∧
      v.kind ≠ .symbol .leftBracket := by
    cases hvalue with
    | none => exact ⟨t, _, rfl, by simp [ht]⟩
    | value he _ => exact ⟨_, _, rfl, by simp [he]⟩
  rw [hahead] at hfaces
  have hnone : IsStars [] 0 := ⟨rfl, fun _ h => absurd h List.not_mem_nil⟩
  unfold declarator
  refine (currentSpan_reaches r).bind fun start r₁ h₁ => ?_
  obtain ⟨-, rfl⟩ := h₁
  refine ((stars_finds hnone (by simp [hn]) hfaces).reaches hscoped).bind fun depth r₂ h₂ => ?_
  obtain ⟨hscoped₂, rfl, h₂⟩ := h₂
  refine (currentSpan_reaches r₂).bind fun span r₃ h₃ => ?_
  obtain ⟨rfl, rfl⟩ := h₃
  rw [h₂.current]
  refine ((name_finds _ hn (by simp) h₂).reaches hscoped₂).bind fun name r₄ h₄ => ?_
  obtain ⟨hscoped₄, rfl, h₄⟩ := h₄
  refine ((arrayBrackets_finds hsizes hfit hv h₄).reaches hscoped₄).bind fun m r₅ h₅ => ?_
  obtain ⟨hscoped₅, rfl, h₅⟩ := h₅
  rw [← hahead] at h₅
  refine ((initializer_finds hvalue hfit' ht h₅).reaches hscoped₅).bind fun value r₆ h₆ => ?_
  refine (declare_reaches _ _ _ h₆.1 h₆.2).bind fun v r₇ h₇ => ?_
  obtain ⟨hscoped₇, h₇, hv⟩ := h₇
  rw [Nat.zero_add] at hv
  exact .get (.pure ⟨hscoped₇, h₇, hv n rfl rfl⟩)

/-- What the words of a type and a declarator make of its variable when nothing else is declared
with it. -/
def DeclaresAlone (words : List Token) (w : Written) (type : VarType) : Prop :=
  ∀ {r : Reader} {t u : Token} {us : List Token} {rest : List Item}, r.Scoped →
    t.kind = .symbol .semicolon → r.Faces (words ++ (w.tokens ++ t :: u :: us)) rest →
    declaration.Reaches r fun ds r' => r'.Faces (u :: us) rest ∧
      ∃ d, ds = [d] ∧ r'.vars.Records d.var w.name type

/-- A variable that is declared alone has the type that its declarator tells. -/
theorem declaration_alone {words : List Token} {base : BaseType} (hwords : IsBase words base)
    (w : Written) : DeclaresAlone words w ⟨base, w.stars + w.brackets⟩ := by
  intro r t u us rest hscoped ht hfaces
  obtain ⟨_, n, k, _, hw⟩ := w
  obtain @⟨_, _, _, _, _, sizes, _, hstars, hn, hsizes, hvalue, hfit⟩ := hw
  simp only [List.append_assoc, List.cons_append] at hfaces
  refine ((typeName_finds hwords hstars hn hfaces).reaches hscoped).bind fun type r₁ h₁ => ?_
  obtain ⟨hscoped₁, rfl, h₁⟩ := h₁
  have hlist : (commaSeparated (declarator ⟨base, k⟩)).Reaches r₁ fun ds r' => r'.Scoped ∧
      r'.Faces (t :: u :: us) rest ∧
      ∃ d, ds = [d] ∧ r'.vars.Records d.var n ⟨base, k + sizes.length⟩ := by
    refine (declarator_reaches hn hsizes hvalue hfit ht hscoped₁ h₁).bind fun d r₂ h₂ => ?_
    obtain ⟨hscoped₂, h₂, hd⟩ := h₂
    refine (Reaches.many_none ?_).bind fun ds r₃ h₃ => ?_
    · have hother := Finds.acceptKind_other h₂ (k := .symbol .comma) (by simp [ht])
      refine (hother.reaches hscoped₂).bind fun b r₃ hb => ?_
      obtain ⟨-, rfl, rfl⟩ := hb
      exact .pure ⟨rfl, rfl⟩
    · obtain ⟨rfl, rfl⟩ := h₃
      exact .pure ⟨hscoped₂, h₂, d, rfl, hd⟩
  refine hlist.bind fun ds r₂ h₂ => ?_
  obtain ⟨-, h₂, d, rfl, hd⟩ := h₂
  refine (expect_reaches _ ht h₂).bind fun _ r₃ h₃ => .pure ⟨h₃.1, d, rfl, ?_⟩
  rw [h₃.2]
  exact hd

end

end Grammar

/-! ## Programs -/

/-- The declarators are written among the items, and the table has the types that go with them. -/
def Grammar.WrittenIn (items : List Item) (ds : List Declarator) (vars : VarTable) : Prop :=
  ∃ w : WrittenDeclaration, w.tokens.map .token <:+: items ∧
    List.Forall₂ (fun d g => vars.Records d.var g.1 g.2) ds w.given

theorem Grammar.writtenIn_lasting {items : List Item} : VarTable.Lasting (WrittenIn items) :=
  fun _ _ hext _ ⟨w, hitems, hds⟩ => ⟨w, hitems, hds.imp fun _ _ h => h.mono hext⟩

theorem Grammar.declaration_writtenIn {items : List Item} (r : Reader) :
    declaration.Places items r (WrittenIn items) := by
  refine (declaration_written r).mono fun ds r' hsound _ _ h => ?_
  obtain ⟨w, hremaining, hds⟩ := h
  obtain ⟨before, hitems⟩ := hsound.within
  refine ⟨w, ⟨before, r'.remaining, ?_⟩, hds⟩
  rw [List.append_assoc, ← hremaining, hitems]

namespace Program

/-- **Declared types.** Every declaration of a program is read from words of a type, declarators
with commas between them, and a semicolon, and these tell the types of its variables. That of the
first one is the type that it has when it is declared alone: a pointer for each star in front of its
name and for each bracket behind it. That of a later one is the type that it has when it is declared
alone, and a pointer more for each star of the first one. -/
theorem declared_types {source : String} {p : Program} (hp : read source = .ok p) :
    ∀ f ∈ p.functions, ∀ s ∈ f.body.statements, ∀ t ∈ s.statements, ∀ ds ∈ t.declarators?,
      ∃ w : Grammar.WrittenDeclaration, w.tokens.map .token <:+: scan source ∧
        List.Forall₂ (fun d g => p.vars.Records d.var g.1 g.2) ds
          ((w.first.name, w.typeOf w.first) ::
            w.rest.map fun d => (d.name, (w.typeOf d).pointTo w.first.stars)) ∧
        ∀ d ∈ w.first :: w.rest, Grammar.DeclaresAlone w.words d (w.typeOf d) := by
  have hlasting : VarTable.Lasting (Grammar.WrittenIn (scan source)) := Grammar.writtenIn_lasting
  have hall := forall_of_read hp (P := fun f vars => ∀ s ∈ f.body.statements,
      s.AllDeclare (Grammar.WrittenIn (scan source)) vars)
    (fun _ _ hext f hf s hs => Stmt.allDeclare_lasting hlasting hext s (hf s hs))
    fun r => Grammar.function_declares r hlasting Grammar.declaration_writtenIn
  intro f hf s hs t ht ds hds
  obtain ⟨w, hitems, hds⟩ := hall f hf s hs t ht ds hds
  exact ⟨w, hitems, hds, fun d _ => Grammar.declaration_alone w.isBase d⟩

/-- A list of declarators in a body and one in a header, with stars and brackets. -/
theorem declared_types_listed :
    ∃ p, read
        "void f(int n) \x7b for (long long int *i, j[n]; ; ) float a = n, **b[n][2]; \x7d" = .ok p ∧
      (p.vars.entries.map Variable.type).toList =
        [.int, ⟨.long, 1⟩, ⟨.long, 2⟩, ⟨.float, 0⟩, ⟨.float, 4⟩] ∧
      ∀ f ∈ p.functions, ∀ s ∈ f.body.statements, ∀ t ∈ s.statements, ∀ ds ∈ t.declarators?,
        ∃ w : Grammar.WrittenDeclaration, w.tokens.map .token <:+: scan
            "void f(int n) \x7b for (long long int *i, j[n]; ; ) float a = n, **b[n][2]; \x7d" ∧
          List.Forall₂ (fun d g => p.vars.Records d.var g.1 g.2) ds
            ((w.first.name, w.typeOf w.first) ::
              w.rest.map fun d => (d.name, (w.typeOf d).pointTo w.first.stars)) ∧
          ∀ d ∈ w.first :: w.rest, Grammar.DeclaresAlone w.words d (w.typeOf d) := by
  refine (exists_of_read ?_).imp fun p h => ⟨h.1, of_decide_eq_true h.2, declared_types h.1⟩
  decide +kernel

/-- The star of one variable makes a pointer of the next one, which alone is none. -/
theorem declared_types_starred :
    (∃ p, read "void f() \x7b int *a, b; \x7d" = .ok p ∧
      (p.vars.get? 1).map (fun x => (x.name, x.type)) = some ("b", ⟨.int, 1⟩)) ∧
    ∃ p, read "void f() \x7b int b; \x7d" = .ok p ∧
      (p.vars.get? 0).map (fun x => (x.name, x.type)) = some ("b", .int) := by
  constructor
  · refine (exists_of_read ?_).imp fun p h => ⟨h.1, of_decide_eq_true h.2⟩
    decide +kernel
  · refine (exists_of_read ?_).imp fun p h => ⟨h.1, of_decide_eq_true h.2⟩
    decide +kernel

end Program

end LoopNest
