import LoopNest.Proofs.Grammar.AcceptExpr
import LoopNest.Proofs.Stmt.Relabel
import LoopNest.Proofs.Stmt.Words

/-!
# Attributes and declarations that are accepted

The words of attributes, declarations and parameters are read again as what they are, with
variables that correspond to the old ones.

* `Parse.Accepts.many_follows`, `Parse.Accepts.commaSeparated_follows`: items that lie ahead come
  back one after the other, while the pairs of variables grow.
* `Grammar.attributes_accepts`: attributes come back in their shape.
* `Grammar.typeName_accepts`: a type takes all stars behind it.
* `Grammar.declaration_accepts`: the first variable of a declaration comes back with its type, and
  so do the others if the first one is no pointer.
* `Grammar.parameters_accepts`: every parameter comes back with its type.
-/

namespace LoopNest

/-! ## Rows of what is read again -/

/-- The items that are there. -/
theorem forall₂_filterMap_id {α β : Type} {R : α → β → Prop} {items : List (Option α)}
    {items' : List (Option β)} (h : List.Forall₂ (Option.Rel R) items items') :
    List.Forall₂ R (items.filterMap id) (items'.filterMap id) := by
  induction h with
  | nil => exact .nil
  | cons first _ ih =>
    cases first with
    | none => exact ih
    | some ha => exact .cons ha ih

theorem forall₂_filterMap_some {α β : Type} {R : β → α → Prop} {bs : List β}
    {items : List (Option α)} (h : List.Forall₂ (fun b => Option.Rel R (some b)) bs items) :
    List.Forall₂ R bs (items.filterMap id) := by
  have hall := forall₂_filterMap_id (List.forall₂_map_left_iff.mpr h)
  rwa [List.filterMap_map, Function.id_comp, List.filterMap_some] at hall

section

variable {α β : Type} {exact : Prop} {K L : Pairing} {c c' d : Context}
  {Q : Pairing → β → α → Prop}

namespace Context.FollowsBy

theorem nil (h : Follows exact K c d) :
    FollowsBy exact K c d fun L => List.Forall₂ (Q L) [] [] :=
  ⟨K, .refl K, h, .nil⟩

/-- One more item, with the pairs that were there in front of the others. -/
theorem cons (hQ : Pairing.Lasting Q) {b : β} {a : α} {bs : List β} {as : List α}
    (hle : K.Le L) (hq : Q L b a)
    (h : FollowsBy exact L c d fun M => List.Forall₂ (Q M) bs as) :
    FollowsBy exact K c d fun M => List.Forall₂ (Q M) (b :: bs) (a :: as) := by
  obtain ⟨M, hle', hfollows, hall⟩ := h
  exact ⟨M, hle.trans hle', hfollows, .cons (hQ.mono hle' hq) hall⟩

end Context.FollowsBy

namespace Parse.Accepts

variable {P : Context → List β → Prop} {words : β → List Word} {B : Word → Prop} {r : Reader}
  {w : Word} {ws : List Word} {bs : List β}

/-- A repeated step reads items again, one after the other. That `bs` lie ahead where the names are
those of `c` is `P c bs`, and `Q` tells what comes of an item. -/
theorem many_follows {item : Parse (Option α)} (hQ : Pairing.Lasting Q)
    (hitem : ∀ {K c b bs r w' ws'}, P c (b :: bs) → Context.Follows exact K c r.context → B w' →
      r.Sees (words b ++ w' :: ws') → item.Accepts r fun o r' => ∃ a c₁, o = some a ∧
        r'.Sees (w' :: ws') ∧ P c₁ bs ∧ Context.FollowsBy exact K c₁ r'.context fun L => Q L b a)
    (hend : ∀ {c}, P c [] → c = c')
    (hstop : ∀ {r}, r.Sees (w :: ws) → item.Accepts r fun o r' => o = none ∧ r' = r) (hw : B w)
    (hstart : ∀ b ∈ bs, ∃ w' ws', words b = w' :: ws' ∧ B w') (h : P c bs)
    (hfollows : Context.Follows exact K c r.context)
    (hsees : r.Sees (bs.flatMap words ++ w :: ws)) :
    (Parse.many item).Accepts r fun as r' => r'.Sees (w :: ws) ∧
      Context.FollowsBy exact K c' r'.context fun L => List.Forall₂ (Q L) bs as := by
  refine (many (B := B) (s := (K, c)) (I := fun s bs d => P s.2 bs ∧ Context.Follows exact s.1 s.2 d)
    (R := fun s bs as d => Context.FollowsBy exact s.1 c' d fun L => List.Forall₂ (Q L) bs as)
    ?_ ?_ hw hstart ⟨h, hfollows⟩ hsees).mono fun as r' has => ⟨has.2, has.1⟩
  · rintro ⟨K, c⟩ b bs r w' ws' ⟨hp, hfollows⟩ hw' hsees
    refine (hitem hp hfollows hw' hsees).mono fun o r' ho => ?_
    obtain ⟨a, c₁, rfl, hsees', hp', L, hle, hfollows', hq⟩ := ho
    exact ⟨a, (L, c₁), rfl, hsees', ⟨hp', hfollows'⟩, fun as d => .cons hQ hle hq⟩
  · rintro ⟨K, c⟩ r ⟨hp, hfollows⟩ hsees
    refine (hstop hsees).mono fun o r' ho => ?_
    obtain ⟨rfl, rfl⟩ := ho
    exact ⟨rfl, hsees, hend hp ▸ .nil hfollows⟩

/-- So it is with commas between them. -/
theorem commaSeparated_follows {item : Parse α} {b : β}
    (hQ : Pairing.Lasting Q)
    (hitem : ∀ {K c b bs r w' ws'}, P c (b :: bs) → Context.Follows exact K c r.context →
      w.EndsItem w' → r.Sees (words b ++ w' :: ws') →
      item.Accepts r fun a r' => ∃ c₁, r'.Sees (w' :: ws') ∧ P c₁ bs ∧
        Context.FollowsBy exact K c₁ r'.context fun L => Q L b a)
    (hend : ∀ {c}, P c [] → c = c') (hw : w.kind ≠ .symbol .comma) (h : P c (b :: bs))
    (hfollows : Context.Follows exact K c r.context)
    (hsees : r.Sees (Word.separated ((b :: bs).map words) ++ w :: ws)) :
    (Parse.commaSeparated item).Accepts r fun as r' => r'.Sees (w :: ws) ∧
      Context.FollowsBy exact K c' r'.context fun L => List.Forall₂ (Q L) (b :: bs) as := by
  refine (commaSeparated (s := (K, c)) (I := fun s bs d => P s.2 bs ∧ Context.Follows exact s.1 s.2 d)
    (R := fun s bs as d => Context.FollowsBy exact s.1 c' d fun L => List.Forall₂ (Q L) bs as)
    ?_ ?_ hw ⟨h, hfollows⟩ hsees).mono fun as r' has => ⟨has.2, has.1⟩
  · rintro ⟨K, c⟩ b bs r w' ws' ⟨hp, hfollows⟩ hw' hsees
    refine (hitem hp hfollows hw' hsees).mono fun a r' ha => ?_
    obtain ⟨c₁, hsees', hp', L, hle, hfollows', hq⟩ := ha
    exact ⟨(L, c₁), hsees', ⟨hp', hfollows'⟩, fun as d => .cons hQ hle hq⟩
  · rintro ⟨K, c⟩ d ⟨hp, hfollows⟩
    exact hend hp ▸ .nil hfollows

end Parse.Accepts

end

namespace Grammar

open Parse

/-! ## Attributes -/

theorem attributeArguments_accepts {args : List Expr} {r : Reader} {w : Word} {ws : List Word}
    (hargs : ∀ x ∈ args, x.Readable) (hw : args = [] → w.kind ≠ .symbol .leftParen)
    (hsees : r.Sees ((if args.isEmpty then [] else .symbol .leftParen ::
      (Word.separated (args.map Expr.words) ++ [.symbol .rightParen])) ++ w :: ws)) :
    attributeArguments.Accepts r fun args' r' =>
      args'.map Expr.shape = args.map Expr.shape ∧ r'.Sees (w :: ws) := by
  unfold attributeArguments
  cases args with
  | nil =>
    refine (Accepts.acceptKind_other hsees (hw rfl)).bind fun accepted r₁ h₁ => ?_
    obtain ⟨rfl, rfl⟩ := h₁
    exact .pure ⟨rfl, hsees⟩
  | cons x args =>
    have hsees : r.Sees (.symbol .leftParen ::
        (Word.separated ((x :: args).map Expr.words) ++ .symbol .rightParen :: w :: ws)) := by
      simpa using hsees
    refine (Accepts.acceptKind hsees (by simp)).bind fun accepted r₁ h₁ => ?_
    obtain ⟨rfl, hsees₁, _⟩ := h₁
    refine (arguments_accepts hargs hsees₁).bind fun args' r₂ h₂ => ?_
    exact (Accepts.expect _ h₂.2 (by simp)).bind fun _ r₃ h₃ => .pure ⟨h₂.1, h₃.1⟩

theorem oneAttribute_accepts {a : Attribute} {r : Reader} {w : Word} {ws : List Word}
    (hargs : ∀ x ∈ a.args, x.Readable) (hw : a.args = [] → w.kind ≠ .symbol .leftParen)
    (hsees : r.Sees (a.words ++ w :: ws)) :
    oneAttribute.Accepts r fun o r' => ∃ b, o = some b ∧ b.shape = a.shape ∧ r'.Sees (w :: ws) := by
  refine .get (Accepts.bind (Accepts.acceptKind hsees (by simp)) fun accepted r₁ h₁ => ?_)
  obtain ⟨rfl, hsees₁, _⟩ := h₁
  refine (Accepts.name _ hsees₁ (by simp)).bind fun name r₂ h₂ => ?_
  obtain ⟨rfl, hsees₂, _⟩ := h₂
  refine (attributeArguments_accepts hargs hw hsees₂).bind fun args r₃ h₃ => ?_
  refine .get (.pure ⟨_, rfl, ?_, h₃.2⟩)
  have hshape : args.map Expr.shape = a.args.map Expr.shape := h₃.1
  exact congrArg (fun xs => (⟨a.name, xs, .none⟩ : Attribute)) hshape

/-- A word that goes on with no attribute: no `@`, and no parenthesis if the last of the attributes
has no arguments. -/
structure EndsMarks (marks : List Attribute) (w : Word) : Prop where
  atSign : w.kind ≠ .symbol .atSign
  arguments : ∀ a ∈ marks.getLast?, a.args = [] → w.kind ≠ .symbol .leftParen

theorem attributes_accepts {marks : List Attribute} {r : Reader} {w : Word} {ws : List Word}
    (hargs : ∀ x ∈ marks.flatMap Attribute.args, x.Readable) (hw : EndsMarks marks w)
    (hsees : r.Sees (Stmt.markWords marks ++ w :: ws)) :
    attributes.Accepts r fun marks' r' => marks'.map Attribute.shape = marks.map Attribute.shape ∧
      r.context.ReadsMarks marks' r'.context ∧ r'.Sees (w :: ws) := by
  have hmany : attributes.Accepts r fun marks' r' =>
      marks'.map Attribute.shape = marks.map Attribute.shape ∧ r'.Sees (w :: ws) := by
    have hne : ∀ a ∈ marks, a.words ≠ [] := fun a _ => List.cons_ne_nil _ _
    refine Accepts.many_ahead
      (I := fun (_ : Unit) marks _ =>
        (∀ x ∈ marks.flatMap Attribute.args, x.Readable) ∧ EndsMarks marks w)
      (R := fun _ marks marks' _ => marks'.map Attribute.shape = marks.map Attribute.shape)
      ?_ ?_ (s := ()) hne ⟨hargs, hw⟩ hsees
    · rintro _ a marks r ⟨hargs, hw⟩ hsees
      rw [List.flatMap_cons, List.forall_mem_append] at hargs
      have hrest : EndsMarks marks w := by
        refine ⟨hw.atSign, fun b hb => hw.arguments b ?_⟩
        cases marks with
        | nil => cases hb
        | cons a' marks => simpa using hb
      obtain ⟨w', ws', hahead, hw'⟩ : ∃ w' ws', marks.flatMap Attribute.words ++ w :: ws = w' :: ws' ∧
          (a.args = [] → w'.kind ≠ .symbol .leftParen) := by
        cases marks with
        | nil => exact ⟨w, ws, rfl, hw.arguments a rfl⟩
        | cons a' marks => exact ⟨_, _, rfl, fun _ h => by cases h⟩
      rw [hahead] at hsees ⊢
      refine (oneAttribute_accepts hargs.1 hw' hsees).mono fun o r' ho => ?_
      obtain ⟨b, rfl, hshape, hsees'⟩ := ho
      exact ⟨b, (), rfl, hsees', ⟨hargs.2, hrest⟩, fun as _ has => congrArg₂ List.cons hshape has⟩
    · rintro _ r ⟨_, hw⟩ hsees
      refine .get ((Accepts.acceptKind_other hsees hw.atSign).bind fun accepted r₁ h₁ => ?_)
      obtain ⟨rfl, rfl⟩ := h₁
      exact .pure ⟨rfl, hsees, rfl⟩
  exact (hmany.ensures (attributes_ensures r)).mono fun _ _ h => ⟨h.1.1, h.2.1, h.1.2⟩

/-! ## Types -/

theorem stars_accepts {n : Nat} {r : Reader} {w : Word} {ws : List Word}
    (hw : w.kind ≠ .symbol .star) (hsees : r.Sees (List.replicate n (.symbol .star) ++ w :: ws)) :
    stars.Accepts r fun k r' => k = n ∧ r'.Sees (w :: ws) ∧ r'.context = r.context := by
  have hmany : stars.Accepts r fun k r' => k = n ∧ r'.Sees (w :: ws) := by
    have hwords : List.replicate n (Word.symbol .star) =
        (List.replicate n ()).flatMap fun _ => [Word.symbol .star] := by
      clear hsees
      induction n with
      | zero => rfl
      | succ n ih => rw [List.replicate_succ, List.replicate_succ, List.flatMap_cons, ← ih]; rfl
    rw [hwords] at hsees
    have hne : ∀ u ∈ List.replicate n (), (fun _ => [Word.symbol .star]) u ≠ [] :=
      fun _ _ => List.cons_ne_nil _ _
    refine (Accepts.many_ahead (I := fun (_ : Unit) _ _ => True)
      (R := fun _ us us' _ => us'.length = us.length) ?_ ?_ (s := ()) hne trivial hsees).bind
      fun found r' h => .pure ⟨h.1.trans List.length_replicate, h.2⟩
    · intro _ _ us r _ hsees
      have hne : us.flatMap (fun _ => [Word.symbol .star]) ++ w :: ws ≠ [] := by simp
      refine (Accepts.acceptKind hsees hne).bind fun accepted r₁ h₁ => ?_
      obtain ⟨rfl, hsees₁, _⟩ := h₁
      exact .pure ⟨(), (), rfl, hsees₁, trivial, fun as _ has => congrArg (· + 1) has⟩
    · intro _ r _ hsees
      refine (Accepts.acceptKind_other hsees hw).bind fun accepted r₁ h₁ => ?_
      obtain ⟨rfl, rfl⟩ := h₁
      exact .pure ⟨rfl, hsees, rfl⟩
  exact (hmany.ensures (stars_ensures r)).mono fun _ _ h => ⟨h.1.1, h.1.2, h.2⟩

/-- A word that goes on with no type. -/
structure EndsType (w : Word) : Prop where
  star : w.kind ≠ .symbol .star
  long : w.kind ≠ .keyword (.type .long)
  int : w.kind ≠ .keyword (.type .int)

theorem endsType_name (n : String) : EndsType (.name n) := ⟨by simp [Word.name], by simp [Word.name],
  by simp [Word.name]⟩

theorem longRest_accepts {r : Reader} {w : Word} {ws : List Word}
    (hlong : w.kind ≠ .keyword (.type .long)) (hint : w.kind ≠ .keyword (.type .int))
    (hsees : r.Sees (w :: ws)) :
    longRest.Accepts r fun _ r' => r' = r := by
  unfold longRest
  refine (Accepts.many_nil ?_).bind fun _ r' h => .pure h.2
  refine (Accepts.acceptKind_other hsees hlong).bind fun accepted r₁ h₁ => ?_
  obtain ⟨rfl, rfl⟩ := h₁
  refine (Accepts.acceptKind_other hsees hint).bind fun accepted r₂ h₂ => ?_
  obtain ⟨rfl, rfl⟩ := h₂
  exact .pure ⟨rfl, rfl⟩

/-- All stars behind a base type belong to the type. -/
theorem typeName_accepts {base : BaseType} {n : Nat} {r : Reader} {w : Word} {ws : List Word}
    (hw : EndsType w)
    (hsees : r.Sees (base.word :: (List.replicate n (.symbol .star) ++ w :: ws))) :
    typeName.Accepts r fun t r' => t = ⟨base, n⟩ ∧ r'.Sees (w :: ws) ∧ r'.context = r.context := by
  have hkind : r.current.kind.baseType? = some base := by
    rw [hsees.kind_current]
    rfl
  refine .get ?_
  simp only [hkind]
  refine (Accepts.advance hsees (by simp)).bind fun _ r₁ h₁ => ?_
  obtain ⟨hsees₁, hcontext⟩ := h₁
  have hrest : (do return ⟨base, ← stars⟩ : Parse VarType).Accepts r₁ fun t r' =>
      t = ⟨base, n⟩ ∧ r'.Sees (w :: ws) ∧ r'.context = r.context := by
    refine (stars_accepts hw.star hsees₁).bind fun k r₂ h₂ => ?_
    obtain ⟨rfl, hsees₂, hcontext₂⟩ := h₂
    exact .pure ⟨rfl, hsees₂, hcontext₂.trans hcontext⟩
  split
  · obtain ⟨w', ws', hahead, hlong, hint⟩ : ∃ w' ws',
        List.replicate n (.symbol .star) ++ w :: ws = w' :: ws' ∧
          w'.kind ≠ .keyword (.type .long) ∧ w'.kind ≠ .keyword (.type .int) := by
      cases n with
      | zero => exact ⟨w, ws, rfl, hw.long, hw.int⟩
      | succ n => exact ⟨_, _, rfl, by simp [Word.symbol], by simp [Word.symbol]⟩
    rw [hahead] at hsees₁
    refine (longRest_accepts hlong hint hsees₁).bind fun _ r₂ h₂ => ?_
    obtain rfl : r₂ = r₁ := h₂
    exact hrest
  · exact hrest

/-! ## Declarations -/

/-- The words of an initial value. -/
def valueWords : Option Expr → List Word
  | some x => .symbol .equal :: x.words
  | none => []

theorem initializer_accepts {value : Option Expr} {r : Reader} {w : Word} {ws : List Word}
    (hvalue : ∀ x ∈ value.toList, x.Readable) (hw : w.Ends) (hequal : w.kind ≠ .symbol .equal)
    (hsees : r.Sees (valueWords value ++ w :: ws)) :
    initializer.Accepts r fun value' r' => value'.map Expr.shape = value.map Expr.shape ∧
      r.context.Reads value'.toList r'.context ∧ r'.Sees (w :: ws) := by
  have haccepts : initializer.Accepts r fun value' r' =>
      value'.map Expr.shape = value.map Expr.shape ∧ r'.Sees (w :: ws) := by
    unfold initializer
    cases value with
    | none =>
      refine (Accepts.acceptKind_other hsees hequal).bind fun accepted r₁ h₁ => ?_
      obtain ⟨rfl, rfl⟩ := h₁
      exact .pure ⟨rfl, hsees⟩
    | some x =>
      have hne : x.words ++ w :: ws ≠ [] := by simp
      refine (Accepts.acceptKind hsees hne).bind fun accepted r₁ h₁ => ?_
      obtain ⟨rfl, hsees₁, _⟩ := h₁
      exact (expression_accepts (hvalue x (by simp)) hw hsees₁).bind fun y r₂ h₂ =>
        .pure ⟨congrArg some h₂.1, h₂.2.1⟩
  exact (haccepts.ensures (initializer_ensures r)).mono fun _ _ h => ⟨h.1.1, h.2, h.1.2⟩

theorem arrayBrackets_accepts {r : Reader} {w : Word} {ws : List Word}
    (hw : w.kind ≠ .symbol .leftBracket) (hsees : r.Sees (w :: ws)) :
    arrayBrackets.Accepts r fun n r' => n = 0 ∧ r' = r :=
  (Accepts.many_other hw hsees).bind fun found r' h => .pure ⟨by rw [h.1]; rfl, h.2⟩

theorem parameterBrackets_accepts {r : Reader} {w : Word} {ws : List Word}
    (hw : w.kind ≠ .symbol .leftBracket) (hsees : r.Sees (w :: ws)) :
    parameterBrackets.Accepts r fun n r' => n = 0 ∧ r' = r :=
  (Accepts.many_other hw hsees).bind fun found r' h => .pure ⟨by rw [h.1]; rfl, h.2⟩

section

variable {exact : Prop} {K : Pairing} {c c' : Context} {vars : VarTable}
  {sizes : Span → List String}

/-- Attributes of one shape use corresponding variables. -/
theorem marks_follow {d d' : Context} {marks marks' : List Attribute}
    (h : Context.Follows exact K c d) (hmarks : c.ReadsMarks marks c')
    (hmarks' : d.ReadsMarks marks' d')
    (hshape : marks'.map Attribute.shape = marks.map Attribute.shape) :
    Context.FollowsBy exact K c' d' fun L => L.Same exact
      (fun σ => marks.map (Attribute.relabel σ)) fun τ => marks'.map (Attribute.relabel τ) := by
  obtain ⟨L, hle, hfollows, hrefs⟩ :=
    h.refers hmarks.2.2 hmarks'.2.2 (Attribute.names_eq_of_shape hshape.symm)
  exact ⟨L, hle, hfollows, Attribute.same_of_shape hshape.symm (.inl hrefs)⟩

/-- So do expressions of one shape. -/
theorem expression_follows {d d' : Context} {x y : Expr} (h : Context.Follows exact K c d)
    (hx : c.Reads [x] c') (hy : d.Reads [y] d') (hshape : y.shape = x.shape) :
    Context.FollowsBy exact K c' d' fun L =>
      L.Same exact (fun σ => x.relabel σ.vars) fun τ => y.relabel τ.vars := by
  have hnames := Expr.names_eq_of_shape hshape.symm
  obtain ⟨L, hle, hfollows, hrefs⟩ := h.refers hx.2 hy.2 (by simpa using hnames)
  have hrefs : List.Forall₂ L.Refs x.refs y.refs := by simpa using hrefs
  exact ⟨L, hle, hfollows, Expr.same_of_shape hshape.symm hrefs⟩

theorem value_follows {d d' : Context} {value value' : Option Expr}
    (h : Context.Follows exact K c d) (hvalue : c.Reads value.toList c')
    (hvalue' : d.Reads value'.toList d') (hshape : value'.map Expr.shape = value.map Expr.shape) :
    Context.FollowsBy exact K c' d' fun L =>
      L.Same exact (fun σ => value.map (Expr.relabel σ.vars))
        fun τ => value'.map (Expr.relabel τ.vars) := by
  cases value with
  | none =>
    obtain rfl : value' = none := Option.map_eq_none_iff.mp hshape
    obtain ⟨L, hle, hfollows, _⟩ := h.refers hvalue.2 hvalue'.2 rfl
    exact ⟨L, hle, hfollows, .option .none⟩
  | some x =>
    obtain ⟨y, rfl, hy⟩ := Option.map_eq_some_iff.mp hshape
    obtain ⟨L, hle, hfollows, hsame⟩ := expression_follows h hvalue hvalue' hy
    exact ⟨L, hle, hfollows, .option (.some hsame)⟩

/-- The declarator `d` is read again behind a type, with `k` stars of its own. -/
theorem declarator_accepts {base : BaseType} {d : Declarator} {type : VarType} {k : Nat}
    {r : Reader} {w : Word} {ws : List Word} (hd : d.ReadIn sizes base c c')
    (hvalue : ∀ x ∈ d.value.toList, x.Apart) (hfollows : Context.Follows exact K c r.context)
    (hframes : 2 ≤ c.frames.length)
    (htype : exact → c'.vars.type? d.var.id = some (type.pointTo k))
    (hw : w.Ends) (hequal : w.kind ≠ .symbol .equal)
    (hsees : r.Sees (List.replicate k (.symbol .star) ++
      (.name d.var.name :: (valueWords d.value ++ w :: ws)))) :
    (declarator type).Accepts r fun e r' => r'.Sees (w :: ws) ∧
      Context.FollowsBy exact K c' r'.context fun L =>
      L.Same exact (fun σ => d.relabel σ) (fun τ => e.relabel τ) ∧
      (c'.vars.type? d.var.id = some (type.pointTo k) → L.typed d.var.id e.var.id) := by
  obtain ⟨vs, c₁, c₂, t, hsizes, hreads, hname, _, hdeclares, _⟩ := hd
  have hreadable : ∀ x ∈ d.value.toList, x.Readable := fun x hx => ⟨hreads.1 x hx, hvalue x hx⟩
  obtain ⟨_, _, htypet⟩ := hdeclares.get?
  unfold declarator
  refine .get ((stars_accepts (by simp [Word.name]) hsees).bind fun depth r₁ h₁ => ?_)
  obtain ⟨rfl, hsees₁, hcontext₁⟩ := h₁
  refine .get ((Accepts.name _ hsees₁ (by simp)).bind fun name r₂ h₂ => ?_)
  obtain ⟨rfl, hsees₂, hcontext₂⟩ := h₂
  obtain ⟨w', ws', hahead, hbracket⟩ : ∃ w' ws', valueWords d.value ++ w :: ws = w' :: ws' ∧
      w'.kind ≠ .symbol .leftBracket := by
    cases d.value with
    | none => exact ⟨w, ws, rfl, hw.bracket⟩
    | some x => exact ⟨_, _, rfl, by simp [Word.symbol]⟩
  have hsees₂' := hsees₂
  rw [hahead] at hsees₂'
  refine (arrayBrackets_accepts hbracket hsees₂').bind fun n r₃ h₃ => ?_
  obtain ⟨rfl, rfl⟩ := h₃
  refine (initializer_accepts hreadable hw hequal hsees₂).bind fun value r₄ h₄ => ?_
  obtain ⟨hshape, hreads', hsees₄⟩ := h₄
  rw [← hcontext₁, ← hcontext₂] at hfollows
  have hfollows₁ := hfollows.dropAll hsizes hframes
  obtain ⟨L, hle, hfollows₂, hsame⟩ := value_follows hfollows₁ hreads hreads' hshape
  have hfree := hfollows₂.free (Context.declares_cases hdeclares).1
  refine (Accepts.declare (type.pointTo (depth + 0)) _ hsees₄ hfree).bind fun v r₅ h₅ => ?_
  obtain ⟨hname', hsees₅, hdeclares'⟩ := h₅
  have hexact : exact → t = type.pointTo (depth + 0) := fun hex =>
    Option.some.inj (htypet.symm.trans (htype hex))
  have hfollows₃ := hfollows₂.declare hdeclares hdeclares' hname'.symm hexact
  have hle' := L.le_add d.var.id v.id (t = type.pointTo (depth + 0))
  refine .get (.pure ⟨hsees₅, _, hle.trans hle', hfollows₃, ?_, ?_⟩)
  · intro σ τ hagree
    have hvar : d.var.relabel σ.vars = v.relabel τ.vars := by
      rw [VarRef.relabel, hagree.vars _ _ (L.add_self _ _ _), ← hname']
      rfl
    have hvalues := hsame.mono hle' σ τ hagree
    exact congrArg₂ (fun v x => (⟨v, x, .none⟩ : Declarator)) hvar hvalues
  · intro htyped
    exact .inr ⟨Option.some.inj (htypet.symm.trans htyped), rfl, rfl⟩

/-- The words of a declarator with `k` stars of its own. -/
def starredWords (b : Nat × Declarator) : List Word :=
  List.replicate b.1 (.symbol .star) ++ .name b.2.var.name :: valueWords b.2.value

theorem words_eq_starredWords (vars : VarTable) (d : Declarator) :
    d.words vars = starredWords ((vars.typeOf d.var).pointers, d) := by
  unfold Declarator.words starredWords valueWords VarRef.starredWords VarType.starWords
  cases d.value <;> simp

/-- The stars of the first variable belong to the type. -/
theorem declarationWords_eq (vars : VarTable) (d : Declarator) (ds : List Declarator) :
    declarationWords vars (d :: ds) = (vars.typeOf d.var).base.word ::
      (List.replicate (vars.typeOf d.var).pointers (.symbol .star) ++
        Word.separated (((0, d) :: ds.map fun e => ((vars.typeOf e.var).pointers, e)).map
          starredWords)) := by
  have hfirst : d.words vars = List.replicate (vars.typeOf d.var).pointers (.symbol .star) ++
      starredWords (0, d) := by
    rw [words_eq_starredWords, starredWords, starredWords]
    rfl
  have hrest : ds.map (Declarator.words vars) =
      (ds.map fun e => ((vars.typeOf e.var).pointers, e)).map starredWords := by
    rw [List.map_map]
    exact List.map_congr_left fun e _ => words_eq_starredWords vars e
  rw [declarationWords, List.map_cons, List.map_cons, Word.separated, Word.separated, hfirst,
    hrest, List.append_assoc]
  rfl

/-- What is left of a declaration: its declarators with their stars, from one context to another. -/
structure Starred (sizes : Span → List String) (exact : Prop) (vars : VarTable) (base : BaseType)
    (pointers : Nat) (c : Context) (bs : List (Nat × Declarator)) (c' : Context) : Prop where
  chain : c.Chain (Declarator.ReadIn sizes base) (bs.map Prod.snd) c'
  table : c'.vars.Extends vars
  frames : 2 ≤ c.frames.length
  apart : ∀ b ∈ bs, ∀ x ∈ b.2.value.toList, x.Apart
  pointers : exact → ∀ b ∈ bs, pointers + b.1 = (vars.typeOf b.2.var).pointers

theorem length_frames_of_readIn {base : BaseType} {d : Declarator} (h : d.ReadIn sizes base c c') :
    c'.frames.length = c.frames.length := by
  obtain ⟨_, _, hrun⟩ := h.run
  exact hrun.length_frames

/-- The type of a variable that was declared. -/
theorem typeOf_of_readIn {base : BaseType} {d : Declarator} (h : d.ReadIn sizes base c c')
    (hvars : c'.vars.Extends vars) : c'.vars.type? d.var.id = some (vars.typeOf d.var) ∧
      (vars.typeOf d.var).base = base := by
  obtain ⟨_, _, _, type, _, _, _, hbase, hdeclares, _⟩ := h
  obtain ⟨_, hlt, htype⟩ := hdeclares.get?
  have heq : vars.type? d.var.id = some type := by
    rw [VarTable.type?, hvars.get?_eq _ hlt]
    exact htype
  rw [VarTable.typeOf, heq]
  exact ⟨htype, hbase⟩

theorem Starred.tail {base : BaseType} {pointers : Nat} {b : Nat × Declarator}
    {bs : List (Nat × Declarator)} (h : Starred sizes exact vars base pointers c (b :: bs) c') :
    ∃ c₁, b.2.ReadIn sizes base c c₁ ∧ c₁.vars.Extends vars ∧
      (∀ x ∈ b.2.value.toList, x.Apart) ∧
      (exact → pointers + b.1 = (vars.typeOf b.2.var).pointers) ∧
      Starred sizes exact vars base pointers c₁ bs c' := by
  obtain ⟨hchain, htable, hframes, hapart, hexact⟩ := h
  rw [List.map_cons] at hchain
  obtain ⟨⟩ | ⟨hfirst, hrest⟩ := hchain
  rename_i c₁
  obtain ⟨hvalue, hapart⟩ := List.forall_mem_cons.mp hapart
  refine ⟨c₁, hfirst, VarTable.Extends.trans (Declarator.run_of_chain hrest).vars_extend htable,
    hvalue, fun hex => hexact hex b List.mem_cons_self, hrest, htable, ?_, hapart, fun hex => ?_⟩
  · rw [length_frames_of_readIn hfirst]
    exact hframes
  · exact (List.forall_mem_cons.mp (hexact hex)).2

/-- What a declarator is read again as. Its variable has its type if the stars are those of the
type. -/
structure SameDeclarator (exact : Prop) (vars : VarTable) (pointers : Nat) (L : Pairing)
    (b : Nat × Declarator) (e : Declarator) : Prop where
  same : L.Same exact (fun σ => b.2.relabel σ) fun τ => e.relabel τ
  typed : pointers + b.1 = (vars.typeOf b.2.var).pointers → L.typed b.2.var.id e.var.id

theorem SameDeclarator.lasting (exact : Prop) (vars : VarTable) (pointers : Nat) :
    Pairing.Lasting (SameDeclarator exact vars pointers) :=
  ⟨fun hle h => ⟨h.same.mono hle, fun hpointers => hle.typed _ _ (h.typed hpointers)⟩⟩

theorem declarators_accepts {base : BaseType} {pointers : Nat} {b : Nat × Declarator}
    {bs : List (Nat × Declarator)} {r : Reader} {ws : List Word}
    (hbs : Starred sizes exact vars base pointers c (b :: bs) c')
    (hfollows : Context.Follows exact K c r.context)
    (hsees : r.Sees (Word.separated ((b :: bs).map starredWords) ++ .symbol .semicolon :: ws)) :
    (commaSeparated (declarator ⟨base, pointers⟩)).Accepts r fun es r' =>
      r'.Sees (.symbol .semicolon :: ws) ∧ Context.FollowsBy exact K c' r'.context fun L =>
        List.Forall₂ (SameDeclarator exact vars pointers L) (b :: bs) es := by
  refine Accepts.commaSeparated_follows
    (P := fun c bs => Starred sizes exact vars base pointers c bs c')
    (SameDeclarator.lasting exact vars pointers)
    ?_ ?_
    (by simp [Word.symbol]) hbs hfollows hsees
  · rintro K c ⟨k, d⟩ bs r w ws hbs hfollows hw hsees
    obtain ⟨c₁, hd, hvars, hvalue, hexact, hrest⟩ := hbs.tail
    obtain ⟨htype, hbase⟩ := typeOf_of_readIn hd hvars
    have hpoint (hpointers : pointers + k = (vars.typeOf d.var).pointers) :
        c₁.vars.type? d.var.id = some ((⟨base, pointers⟩ : VarType).pointTo k) := by
      have heq : (⟨base, pointers⟩ : VarType).pointTo k = vars.typeOf d.var := by
        rw [VarType.pointTo, hpointers, ← hbase]
      rw [htype, heq]
    have hends : w.Ends ∧ w.kind ≠ .symbol .equal := by
      rcases hw with rfl | rfl
      · exact ⟨Symbol.ends_of_mem (by simp), by simp [Word.symbol]⟩
      · exact ⟨Symbol.ends_of_mem (by simp), by simp [Word.symbol]⟩
    have hsees : r.Sees (List.replicate k (.symbol .star) ++
        (.name d.var.name :: (valueWords d.value ++ w :: ws))) := by
      simpa [starredWords] using hsees
    have haccepts := declarator_accepts hd hvalue hfollows hbs.frames
      (fun hex => hpoint (hexact hex)) hends.1 hends.2 hsees
    refine haccepts.mono fun e r₁ h₁ => ?_
    obtain ⟨hsees₁, L, hle, hfollows₁, hsame, htyped⟩ := h₁
    exact ⟨c₁, hsees₁, hrest, L, hle, hfollows₁, hsame, fun hpointers => htyped (hpoint hpointers)⟩
  · rintro c ⟨hchain, _⟩
    cases hchain
    rfl

/-- The declaration is read again. -/
theorem declaration_accepts {base : BaseType} {ds : List Declarator} {r : Reader} {w : Word}
    {ws : List Word} (hne : ds ≠ []) (hds : c.Chain (Declarator.ReadIn sizes base) ds c')
    (hvars : c'.vars.Extends vars) (hframes : 2 ≤ c.frames.length)
    (hvalues : ∀ d ∈ ds, ∀ x ∈ d.value.toList, x.Apart)
    (hstars : exact → 2 ≤ ds.length → ∀ d ∈ ds.head?, (vars.typeOf d.var).pointers = 0)
    (hfollows : Context.Follows exact K c r.context)
    (hsees : r.Sees (declarationWords vars ds ++ .symbol .semicolon :: w :: ws)) :
    declaration.Accepts r fun es r' => r'.Sees (w :: ws) ∧
      Context.FollowsBy exact K c' r'.context fun L =>
      L.Same exact (fun σ => ds.map (Declarator.relabel σ))
        (fun τ => es.map (Declarator.relabel τ)) ∧
      ∀ e ∈ es.take 1, ∃ i, L.typed i e.var.id := by
  obtain ⟨d, ds, rfl⟩ := List.exists_cons_of_ne_nil hne
  have hbase : (vars.typeOf d.var).base = base := by
    obtain ⟨⟩ | ⟨hfirst, hrest⟩ := hds
    have hextends := (Declarator.run_of_chain hrest).vars_extend
    exact (typeOf_of_readIn hfirst (VarTable.Extends.trans hextends hvars)).2
  let bs := ds.map fun e => ((vars.typeOf e.var).pointers, e)
  have hsnd : ((0, d) :: bs).map Prod.snd = d :: ds := by simp [bs, Function.comp_def]
  have hbs : Starred sizes exact vars base (vars.typeOf d.var).pointers c ((0, d) :: bs) c' := by
    refine ⟨hsnd ▸ hds, hvars, hframes, fun b hb => ?_, fun hex => ?_⟩
    · exact hvalues b.2 (hsnd ▸ List.mem_map_of_mem hb)
    · refine List.forall_mem_cons.mpr ⟨rfl, fun b hb => ?_⟩
      obtain ⟨e, he, rfl⟩ := List.mem_map.mp hb
      have hpos := List.length_pos_of_mem he
      have hzero := hstars hex (by rw [List.length_cons]; omega) d rfl
      rw [hzero, Nat.zero_add]
  obtain ⟨w', ws', hahead, hw'⟩ : ∃ w' ws', Word.separated (((0, d) :: bs).map starredWords) ++
      .symbol .semicolon :: w :: ws = w' :: ws' ∧ EndsType w' :=
    ⟨_, _, rfl, endsType_name d.var.name⟩
  rw [declarationWords_eq, List.cons_append, List.append_assoc, hbase, hahead] at hsees
  unfold declaration
  refine (typeName_accepts hw' hsees).bind fun type r₁ h₁ => ?_
  obtain ⟨rfl, hsees₁, hcontext⟩ := h₁
  rw [← hahead] at hsees₁
  rw [← hcontext] at hfollows
  refine (declarators_accepts hbs hfollows hsees₁).bind fun es r₂ h₂ => ?_
  obtain ⟨hsees₂, L, hle, hfollows₂, hall⟩ := h₂
  refine (Accepts.expect _ hsees₂ (by simp)).bind fun _ r₃ h₃ => .pure ⟨h₃.1, L, hle, ?_, ?_, ?_⟩
  · rw [h₃.2]
    exact hfollows₂
  · rw [← hsnd]
    exact .map (List.forall₂_map_left_iff.mpr (hall.imp fun _ _ h => h.same))
  · cases hall with
    | cons hfirst _ =>
      intro e he
      obtain rfl := List.mem_singleton.mp he
      exact ⟨_, hfirst.typed rfl⟩

/-! ## Parameters -/

/-- A parameter is read again, behind all stars of its type. -/
theorem parameter_accepts {v : VarRef} {type : VarType} {r : Reader} {w : Word} {ws : List Word}
    (hv : v.ReadIn sizes c c') (htype : c'.vars.type? v.id = some type)
    (hfollows : Context.Follows exact K c r.context) (hframes : 2 ≤ c.frames.length)
    (hw : w.kind ≠ .symbol .leftBracket) (hsees : r.Sees (.name v.name :: w :: ws)) :
    (parameter type).Accepts r fun u r' => r'.Sees (w :: ws) ∧
      Context.FollowsBy exact K c' r'.context fun L =>
      L.Same exact (fun σ => v.relabel σ.vars) fun τ => u.relabel τ.vars := by
  obtain ⟨vs, c₁, t, hsizes, _, hdeclares, _⟩ := hv
  obtain ⟨_, _, htypet⟩ := hdeclares.get?
  obtain rfl : t = type := Option.some.inj (htypet.symm.trans htype)
  have hstars : r.Sees (List.replicate 0 (.symbol .star) ++ .name v.name :: w :: ws) := hsees
  unfold parameter
  refine (stars_accepts (by simp [Word.name]) hstars).bind fun depth r₁ h₁ => ?_
  obtain ⟨rfl, hsees₁, hcontext₁⟩ := h₁
  refine .get ((Accepts.name _ hsees₁ (by simp)).bind fun name r₂ h₂ => ?_)
  obtain ⟨rfl, hsees₂, hcontext₂⟩ := h₂
  refine (parameterBrackets_accepts hw hsees₂).bind fun n r₃ h₃ => ?_
  obtain ⟨rfl, rfl⟩ := h₃
  rw [← hcontext₁, ← hcontext₂] at hfollows
  have hfollows₁ := hfollows.dropAll hsizes hframes
  have hfree := hfollows₁.free (Context.declares_cases hdeclares).1
  refine (Accepts.declare (t.pointTo 0) _ hsees₂ hfree).mono fun u r₄ h₄ => ?_
  obtain ⟨hname, hsees₄, hdeclares'⟩ := h₄
  have hfollows₂ := hfollows₁.declare hdeclares hdeclares' hname.symm fun _ => rfl
  refine ⟨hsees₄, _, K.le_add _ _ _, hfollows₂, fun σ τ hagree => ?_⟩
  have hids : σ.vars v.id = τ.vars u.id := hagree.vars _ _ (K.add_self _ _ _)
  have hnames : v.name = u.name := hname.symm
  exact congrArg₂ VarRef.mk hids hnames

/-- What is left of the parameters. -/
structure Parameters (sizes : Span → List String) (vars : VarTable) (c : Context) (vs : List VarRef)
    (c' : Context) : Prop where
  chain : c.Chain (VarRef.ReadIn sizes) vs c'
  table : c'.vars.Extends vars
  frames : 2 ≤ c.frames.length

theorem Parameters.tail {v : VarRef} {vs : List VarRef} (h : Parameters sizes vars c (v :: vs) c') :
    ∃ c₁, v.ReadIn sizes c c₁ ∧ c₁.vars.type? v.id = some (vars.typeOf v) ∧
      Parameters sizes vars c₁ vs c' := by
  obtain ⟨hchain, htable, hframes⟩ := h
  obtain ⟨⟩ | ⟨hfirst, hrest⟩ := hchain
  rename_i c₁
  obtain ⟨_, _, hrun⟩ := VarRef.run_of_chain hrest
  obtain ⟨vs', c₂, type, hsizes, hname, hdeclares, hsized⟩ := hfirst
  obtain ⟨_, hlt, htype⟩ := hdeclares.get?
  have hextends : c₁.vars.Extends vars := VarTable.Extends.trans hrun.vars_extend htable
  have heq : vars.type? v.id = some type := by
    rw [VarTable.type?, hextends.get?_eq _ hlt]
    exact htype
  have hlength : c₁.frames.length = c.frames.length :=
    ((Context.Run.of_refers hsizes).append (.declared hdeclares)).length_frames
  refine ⟨c₁, ⟨vs', c₂, type, hsizes, hname, hdeclares, hsized⟩, ?_, hrest, htable, hlength ▸ hframes⟩
  rw [VarTable.typeOf, heq]
  exact htype

theorem parameterType_accepts {v : VarRef} {r : Reader} {ws : List Word}
    (hsees : r.Sees (v.parameterWords vars ++ ws)) :
    typeName.Accepts r fun type r' => type = vars.typeOf v ∧ r'.Sees (.name v.name :: ws) ∧
      r'.context = r.context := by
  have hsees : r.Sees ((vars.typeOf v).base.word :: (List.replicate (vars.typeOf v).pointers
      (.symbol .star) ++ .name v.name :: ws)) := by
    simpa [VarRef.parameterWords, VarRef.starredWords, VarType.starWords] using hsees
  exact typeName_accepts (endsType_name _) hsees

/-- What a parameter is read again as. -/
def SameParameter (exact : Prop) (L : Pairing) (v u : VarRef) : Prop :=
  L.Same exact (fun σ => v.relabel σ.vars) fun τ => u.relabel τ.vars

theorem SameParameter.lasting (exact : Prop) : Pairing.Lasting (SameParameter exact) :=
  ⟨fun hle h => Pairing.Same.mono h hle⟩

theorem leftBracket_ne_of_endsItem {w : Word} (hw : Word.EndsItem (.symbol .rightParen) w) :
    w.kind ≠ .symbol .leftBracket := by
  rcases hw with rfl | rfl <;> simp [Word.symbol]

/-- The parameters behind the first one. -/
theorem moreParameters_accepts {vs : List VarRef} {r : Reader} {ws : List Word}
    (hvs : Parameters sizes vars c vs c') (hfollows : Context.Follows exact K c r.context)
    (hsees : r.Sees (vs.flatMap (fun v => .symbol .comma :: v.parameterWords vars) ++
      .symbol .rightParen :: ws)) :
    (many do if ← accept .comma then return some (← parameter (← typeName)) else pure none).Accepts r
      fun us r' => r'.Sees (.symbol .rightParen :: ws) ∧
        Context.FollowsBy exact K c' r'.context fun L =>
          List.Forall₂ (SameParameter exact L) vs us := by
  refine Accepts.many_follows (P := fun c vs => Parameters sizes vars c vs c')
    (B := Word.EndsItem (.symbol .rightParen)) (SameParameter.lasting exact) ?_ ?_ ?_
    (.inr rfl) (Accepts.exists_comma _ vs) hvs hfollows hsees
  · intro K c v vs r w ws hvs hfollows hw hsees
    obtain ⟨c₁, hv, htype, hrest⟩ := hvs.tail
    have hne : v.parameterWords vars ++ w :: ws ≠ [] := by simp
    refine (Accepts.acceptKind hsees hne).bind fun accepted r₁ h₁ => ?_
    obtain ⟨rfl, hsees₁, hcontext₁⟩ := h₁
    refine (parameterType_accepts hsees₁).bind fun type r₂ h₂ => ?_
    obtain ⟨rfl, hsees₂, hcontext₂⟩ := h₂
    rw [← hcontext₁, ← hcontext₂] at hfollows
    exact (parameter_accepts hv htype hfollows hvs.frames (leftBracket_ne_of_endsItem hw)
      hsees₂).bind fun u r₃ h₃ => .pure ⟨u, c₁, rfl, h₃.1, hrest, h₃.2⟩
  · rintro c ⟨hchain, _⟩
    cases hchain
    rfl
  · intro r hsees
    refine (Accepts.acceptKind_other hsees (by simp [Word.symbol])).bind fun b r₁ h₁ => ?_
    obtain ⟨rfl, rfl⟩ := h₁
    exact .pure ⟨rfl, rfl⟩

theorem parameters_accepts {vs : List VarRef} {r : Reader} {ws : List Word}
    (hvs : Parameters sizes vars c vs c') (hfollows : Context.Follows exact K c r.context)
    (hsees : r.Sees (Word.separated (vs.map (VarRef.parameterWords vars)) ++
      .symbol .rightParen :: ws)) :
    parameters.Accepts r fun us r' => r'.Sees (.symbol .rightParen :: ws) ∧
      Context.FollowsBy exact K c' r'.context fun L =>
        List.Forall₂ (SameParameter exact L) vs us := by
  refine .get ?_
  cases vs with
  | nil =>
    obtain ⟨⟨⟩, _⟩ := hvs
    rw [if_pos ((hsees.seesSymbol_iff .rightParen).mpr rfl)]
    exact .pure ⟨hsees, .nil hfollows⟩
  | cons v vs =>
    obtain ⟨c₁, hv, htype, hrest⟩ := hvs.tail
    have hstart : ∀ v ∈ vs, ∃ w' ws', Word.symbol .comma :: v.parameterWords vars = w' :: ws' ∧
        Word.EndsItem (.symbol .rightParen) w' := Accepts.exists_comma _ vs
    obtain ⟨w', ws', hahead, hw'⟩ := Accepts.exists_ahead
      (B := Word.EndsItem (.symbol .rightParen)) ws (.inr rfl) hstart
    rw [List.map_cons, Word.separated, List.append_assoc, List.flatMap_map, hahead] at hsees
    have hopen : ¬ r.seesSymbol .rightParen = true := by
      rw [Reader.Sees.seesSymbol_iff hsees]
      exact fun h => by cases h
    rw [if_neg hopen]
    refine (parameterType_accepts hsees).bind fun type r₁ h₁ => .get ?_
    obtain ⟨rfl, hsees₁, hcontext₁⟩ := h₁
    have hname : ¬ r₁.seesSymbol .rightParen = true := by
      rw [Reader.Sees.seesSymbol_iff hsees₁]
      exact fun h => by cases h
    rw [if_neg (by simp [hname])]
    rw [← hcontext₁] at hfollows
    refine (parameter_accepts hv htype hfollows hvs.frames (leftBracket_ne_of_endsItem hw')
      hsees₁).bind fun u r₂ h₂ => ?_
    obtain ⟨hsees₂, L, hle, hfollows₂, hsame⟩ := h₂
    rw [← hahead] at hsees₂
    exact (moreParameters_accepts hrest hfollows₂ hsees₂).bind fun us r₃ h₃ =>
      .pure ⟨h₃.1, .cons (SameParameter.lasting exact) hle hsame h₃.2⟩

end

end Grammar

end LoopNest
