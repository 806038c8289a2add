import LoopNest.Proofs.Grammar.Balanced
import LoopNest.Proofs.Grammar.Consumes
import LoopNest.Proofs.Grammar.Laid

/-!
# What a reader that stops at the first error consumes

Such a reader passes over no token that is not part of what it yields: the tokens that it took
derive its result, and if they are in order, its nodes are laid among them.

* `Reader.Took.bounds`: the span that a reader takes is that of the tokens that it took.
* `Parse.Consumes.inScope`, `Grammar.Handling.declareOnce_consumes`: the rules for steps that change
  what names stand for.
* `Grammar.typeName_consumes`, `Grammar.attributes_consumes`: what is read without declarations.
* `Grammar.Handling.declaration_consumes`, `Grammar.Handling.statement_consumes`,
  `Grammar.Handling.functions_consumes`: declarations, statements and functions.
-/

namespace LoopNest

open Token

namespace Reader.Took

variable {r r' r'' : Reader} {ts us : List Token} {t : Token}

/-- From the start of the current token to the end of the last one that was taken. -/
theorem bounds (h : r.Took ts r') (hne : ts ≠ []) (ho : InOrder ts) :
    (r.current.span.merge r'.previous.span).Bounds ts := by
  obtain ⟨t, us, rfl⟩ := List.exists_cons_of_ne_nil hne
  have hlast := List.getLast?_eq_some_getLast hne
  rw [h.current, h.last hlast]
  exact .merge_ends ho rfl hlast

/-- In front of what was taken, or of what is next, stands the current token. -/
theorem current_mem (h : r.Took ts r') (h' : r'.Took (t :: us) r'') :
    r.current ∈ (ts ++ [t]).head? := by
  have htook := h.append h'
  cases ts with
  | nil => exact congrArg some htook.current.symm
  | cons => exact congrArg some htook.current.symm

end Reader.Took

/-- The token behind these, in front of which a reader stops. -/
def Reader.StopsAt (r : Reader) (ts : List Token) (N : Token → Prop) : Prop :=
  ∀ t rest, r.remaining = ts.map .token ++ .token t :: rest → N t

namespace Reader.StopsAt

variable {r r' : Reader} {ts us : List Token} {N : Token → Prop}

theorem current (h : r.StopsAt ts N) (htook : r.Took ts r') : N r'.current :=
  h r'.current r'.items htook.remaining

theorem append (htook : r.Took ts r') (h : r'.StopsAt us N) : r.StopsAt (ts ++ us) N := by
  intro t rest hremaining
  rw [htook.remaining, List.map_append, List.append_assoc] at hremaining
  exact h t rest (List.append_cancel_left hremaining)

end Reader.StopsAt

namespace Parse

variable {α : Type}

/-- A step that is repeated as long as it takes tokens stops in front of one where it takes none. -/
theorem Consumes.manyUntil {item : Parse (Option α)} {N : Token → Prop}
    (h : ∀ r, item.Consumes r fun ts o => o.elim (ts = [] ∧ N r.current) fun _ => ts ≠ [])
    (r : Reader) : (Parse.many item).Consumes r fun ts _ => r.StopsAt ts N := by
  have hrounds (rounds : List Item) (r : Reader) : (manyFor item rounds).Consumes r fun ts _ =>
      r.remaining.length ≤ rounds.length → r.StopsAt ts N := by
    induction rounds generalizing r with
    | nil => exact .pure fun hle => absurd hle (by simp [Reader.remaining])
    | cons _ rounds ih =>
      refine (h r).andThen fun o r₁ ts htook ho => ?_
      cases o with
      | none =>
        obtain ⟨rfl, hstop⟩ := ho
        refine .pure fun _ t rest hremaining => ?_
        obtain rfl : r.current = t := Item.token.inj (List.cons.inj hremaining).1
        exact hstop
      | some a =>
        refine (ih r₁).bind fun as r₂ us hus => .pure fun hle => ?_
        have hlength := congrArg List.length htook.remaining
        have hpos : 0 < ts.length := List.length_pos_iff.mpr ho
        rw [List.length_append, List.length_map] at hlength
        rw [List.length_cons] at hle
        rw [List.append_nil]
        exact .append htook (hus (by omega))
  exact .get ((hrounds r.remaining r).mono fun _ _ hstop => hstop (Nat.le_refl _))

/-- The tokens of a step in a scope of its own are those of the step. -/
theorem Consumes.inScope {step : Parse α} {Q : List Token → α → Prop}
    (hkeeps : Keeps Reader.Extends step) (h : ∀ r, step.Consumes r Q) (r : Reader) :
    (Parse.inScope step).Consumes r Q := by
  intro hclosed hscoped a r' hrun
  let r₁ : Reader := { r with scopes := r.scopes.push }
  have hextends : r₁.Extends (step r₁).2 := hkeeps r₁
  have hscoped₁ : r₁.Scoped := by
    refine ⟨hscoped.scopes.push, ?_⟩
    rw [Reader.context_push hscoped.scopes]
    exact hscoped.context.push
  rw [inScope_apply] at hrun
  obtain ⟨ha, rfl⟩ := Prod.mk.inj hrun
  obtain ⟨hclosed₂, hscoped₂, ts, htook, hq⟩ := h r₁ hclosed hscoped₁ a _ (Prod.ext ha rfl)
  obtain ⟨hpop, hne⟩ := Reader.context_pop hextends.scopes hscoped₂.scopes
  refine ⟨hclosed₂, ⟨hscoped₂.scopes.pop, ?_⟩, ts, ⟨htook.remaining, htook.previous⟩, hq⟩
  rw [hpop]
  exact hscoped₂.context.pop hne

end Parse

namespace Grammar

open Parse

variable (r : Reader)

/-! ## Attributes and types -/

/-- The tokens of a row of single tokens. -/
theorem Rows.singles {α : Type} {S : List Token → α → Prop} {P : Token → Prop} {ts : List Token}
    {as : List α} (h : Rows S ts as) (hS : ∀ us a, S us a → ∃ t, us = [t] ∧ P t) :
    ts.length = as.length ∧ ∀ t ∈ ts, P t := by
  induction h with
  | nil => exact ⟨rfl, fun _ ht => absurd ht List.not_mem_nil⟩
  | cons first _ ih =>
    obtain ⟨t, rfl, ht⟩ := hS _ _ first
    exact ⟨congrArg Nat.succ ih.1, List.forall_mem_cons.mpr ⟨ht, ih.2⟩⟩

/-- A row of which every item is there. -/
theorem Rows.somes {α : Type} {S : List Token → α → Prop} {ts : List Token} {os : List (Option α)}
    (h : Rows (fun us o => ∃ a, o = some a ∧ S us a) ts os) : Rows S ts (os.filterMap id) := by
  induction h with
  | nil => exact .nil
  | cons first _ ih =>
    obtain ⟨a, rfl, ha⟩ := first
    exact .cons ha ih

theorem optional_consumes (s : Symbol) : (optional s).Consumes r fun ts o =>
    o.elim (ts = [] ∧ r.current.kind ≠ .symbol s) fun _ => ∃ t, ts = [t] ∧ t.kind = .symbol s := by
  apply ((Consumes.acceptKind (by simp) r).and (Consumes.acceptKind_iff (by simp) r)).bind
  intro accepted r₁ ts hts
  obtain ⟨hts, hsees⟩ := hts
  cases accepted with
  | false => exact .pure ⟨by simpa using hts, fun hkind => absurd (hsees.mpr hkind) (by simp)⟩
  | true => exact .pure (by simpa using hts)

theorem stars_consumes : stars.Consumes r IsStars := by
  have hstar (r : Reader) : (optional .star).Consumes r fun ts o =>
      o.elim (ts = []) fun _ => ∃ t, ts = [t] ∧ t.kind = .symbol .star := by
    refine (optional_consumes r .star).mono fun ts o ho => ?_
    cases o with
    | none => exact ho.1
    | some _ => exact ho
  rw [stars_eq]
  apply (Consumes.many hstar r).bind
  intro found r₁ ts hts
  apply Consumes.pure
  rw [List.append_nil]
  exact hts.singles fun _ _ h => h

theorem longItem_consumes : longItem.Consumes r fun ts o =>
    o.elim (ts = []) fun _ => ∃ t, ts = [t] ∧ IsLongWord t := by
  apply (Consumes.acceptKind (by simp) r).bind
  intro accepted r₁ ts hts
  cases accepted with
  | true =>
    obtain ⟨t, rfl, ht⟩ := hts
    exact .pure ⟨t, rfl, .inl ht⟩
  | false =>
    obtain rfl : ts = [] := hts
    apply (Consumes.acceptKind (by simp) r₁).bind
    intro accepted r₂ us hus
    cases accepted with
    | true =>
      obtain ⟨t, rfl, ht⟩ := hus
      exact .pure ⟨t, rfl, .inr ht⟩
    | false => exact .pure (by simpa using hus)

theorem longRest_consumes : longRest.Consumes r fun ts _ => ∀ t ∈ ts, IsLongWord t := by
  rw [longRest_eq]
  apply (Consumes.many longItem_consumes r).bind
  intro found r₁ ts hts
  apply Consumes.pure
  rw [List.append_nil]
  exact (hts.singles fun _ _ h => h).2

theorem keyword_of_baseType {k : Token.Kind} {base : BaseType} (h : k.baseType? = some base) :
    k = .keyword (.type base) := by
  unfold Token.Kind.baseType? at h
  split at h <;> cases h
  rfl

theorem typeName_consumes : typeName.Consumes r DerivesType := by
  apply Consumes.get
  split
  · next base hbase =>
    have hkind := keyword_of_baseType hbase
    apply (Consumes.advance (by simp [hkind])).bind
    intro _ r₁ ts hts
    subst hts
    split
    · next hlong =>
      apply (longRest_consumes r₁).bind
      intro _ r₂ ts hts
      apply (stars_consumes r₂).bind
      intro n r₃ us hus
      apply Consumes.pure
      rw [List.append_nil]
      show DerivesType (r.current :: (ts ++ us)) ⟨base, n⟩
      exact .words hkind (fun _ => hlong) hts hus
    · apply (stars_consumes r₁).bind
      intro n r₂ us hus
      apply Consumes.pure
      rw [List.append_nil]
      exact .words hkind (fun h => absurd rfl h) (fun _ ht => absurd ht List.not_mem_nil) hus
  · exact .fail _

/-- An expression that is read is laid. -/
theorem expression_laid : expression.Consumes r (LaidAt 1) :=
  expression_consumes_of_rules laidAt_rules r

/-- The stars behind the words of a type belong to it. -/
theorem typeName_stop : typeName.Consumes r fun ts _ =>
    r.StopsAt ts fun t => t.kind ≠ .symbol .star := by
  have hstar (r : Reader) : (optional .star).Consumes r fun ts o =>
      o.elim (ts = [] ∧ r.current.kind ≠ .symbol .star) fun _ => ts ≠ [] := by
    refine (optional_consumes r .star).mono fun ts o ho => ?_
    cases o with
    | none => exact ho
    | some _ =>
      obtain ⟨t, rfl, -⟩ := ho
      exact List.cons_ne_nil t []
  have hstars (r : Reader) : stars.Consumes r fun ts _ =>
      r.StopsAt ts fun t => t.kind ≠ .symbol .star := by
    rw [stars_eq]
    apply (Consumes.manyUntil (N := fun t => t.kind ≠ .symbol .star) hstar r).bind
    intro found r₁ ts hts
    apply Consumes.pure
    rwa [List.append_nil]
  apply Consumes.get
  split
  · next base hbase =>
    have hkind := keyword_of_baseType hbase
    apply (Consumes.advance (by simp [hkind])).andThen
    intro _ r₁ ts htook _
    split
    · apply (longRest_consumes r₁).andThen
      intro _ r₂ us htook₁ _
      apply (hstars r₂).bind
      intro n r₃ vs hvs
      apply Consumes.pure
      rw [List.append_nil, ← List.append_assoc]
      exact .append (htook.append htook₁) hvs
    · apply (hstars r₁).bind
      intro n r₂ us hus
      apply Consumes.pure
      rw [List.append_nil]
      exact .append htook hus
  · exact .fail _

theorem arguments_laid : (arguments expression).Consumes r LaidArguments := by
  refine (arguments_consumes expression_laid r).mono fun ts xs h => ?_
  obtain ⟨args, rfl, hts, hargs⟩ := h
  exact .list hts hargs

theorem attributeArguments_consumes : attributeArguments.Consumes r fun ts args =>
    (ts = [] ∧ args = []) ∨ ∃ t us u, ts = t :: (us ++ [u]) ∧ t.kind = .symbol .leftParen ∧
      LaidArguments us args ∧ u.kind = .symbol .rightParen := by
  apply (Consumes.acceptKind (by simp) r).bind
  intro accepted r₁ ts hts
  cases accepted with
  | false => exact .pure (.inl ⟨by simpa using hts, rfl⟩)
  | true =>
    obtain ⟨t, rfl, ht⟩ := hts
    apply (arguments_laid r₁).bind
    intro args r₂ us hus
    apply (Consumes.expect _ _ r₂).bind
    intro _ r₃ vs hvs
    apply Consumes.pure
    obtain ⟨u, rfl, hu⟩ := hvs
    exact .inr ⟨t, us, u, by simp, ht, hus, hu⟩

theorem oneAttribute_consumes : oneAttribute.Consumes r fun ts o =>
    o.elim (ts = []) fun a => LaidMark ts a := by
  refine .get ((Consumes.acceptKind (by simp) r).andThen fun accepted r₁ ts htook hts => ?_)
  cases accepted with
  | false => exact .pure (by simpa using hts)
  | true =>
    obtain ⟨t, rfl, ht⟩ := hts
    apply (Consumes.identifier _ r₁).andThen
    intro name r₂ us htook₁ hus
    obtain ⟨rfl, hname, rfl⟩ := hus
    refine (attributeArguments_consumes r₂).andThen fun args r₃ vs htook₂ hvs => .get (.pure ?_)
    have hspan := (htook.append (htook₁.append htook₂)).bounds (List.cons_ne_nil _ _)
    rw [List.append_nil]
    rcases hvs with ⟨rfl, rfl⟩ | ⟨u, ws, v, rfl, hu, hws, hv⟩
    · exact ⟨.plain ht hname, fun ho => .intro (.plain ht hname) (hspan ho) (.nil _)⟩
    · refine ⟨.applied ht hname hu hws.derives hv, fun ho => ?_⟩
      have hparts := hws.laid ho.tail.tail.tail.left
      exact .intro (.applied ht hname hu hws.derives hv) (hspan ho)
        ((hparts.before [v]).behind [t, r₁.current, u])

theorem attributes_consumes : attributes.Consumes r (Rows LaidMark) :=
  Consumes.many oneAttribute_consumes r

/-! ## Parts of declarations -/

theorem arrayBracket_consumes : arrayBracket.Consumes r fun ts o =>
    o.elim (ts = []) fun _ => DerivesSize ts ∧ IntegersFit ts := by
  apply (Consumes.acceptKind (by simp) r).bind
  intro accepted r₁ ts hts
  cases accepted with
  | false => exact .pure (by simpa using hts)
  | true =>
    obtain ⟨t, rfl, ht⟩ := hts
    apply (expression_laid r₁).bind
    intro x r₂ us hus
    apply (Consumes.expect _ _ r₂).bind
    intro _ r₃ vs hvs
    apply Consumes.pure
    obtain ⟨u, rfl, hu⟩ := hvs
    exact ⟨.size ht hus.derives hu, .cons (by simp [ht]) (hus.fit.snoc (by simp [hu]))⟩

theorem arrayBrackets_consumes : arrayBrackets.Consumes r fun ts n =>
    ∃ sizes : List Unit, n = sizes.length ∧ Rows (fun us _ => DerivesSize us) ts sizes ∧
      IntegersFit ts := by
  rw [arrayBrackets_eq]
  apply (Consumes.many arrayBracket_consumes r).bind
  intro found r₁ ts hts
  apply Consumes.pure
  rw [List.append_nil]
  exact ⟨found, rfl, hts.mono fun _ _ h => h.1, hts.integersFit fun _ _ h => h.2⟩

theorem parameterBracket_consumes : parameterBracket.Consumes r fun ts o =>
    o.elim (ts = []) fun _ => DerivesBrackets ts := by
  apply (Consumes.acceptKind (by simp) r).bind
  intro accepted r₁ ts hts
  cases accepted with
  | false => exact .pure (by simpa using hts)
  | true =>
    obtain ⟨t, rfl, ht⟩ := hts
    apply Consumes.get
    split
    · apply (expression_consumes r₁).bind
      intro x r₂ us hus
      apply (Consumes.expect _ _ r₂).bind
      intro _ r₃ vs hvs
      apply Consumes.pure
      obtain ⟨u, rfl, hu⟩ := hvs
      simpa using DerivesBrackets.sized (.size ht hus hu)
    · apply (Consumes.expect _ _ r₁).bind
      intro _ r₂ vs hvs
      apply Consumes.pure
      obtain ⟨u, rfl, hu⟩ := hvs
      exact .bare ht hu

theorem parameterBrackets_consumes : parameterBrackets.Consumes r fun ts n =>
    ∃ brackets : List Unit, n = brackets.length ∧
      Rows (fun us _ => DerivesBrackets us) ts brackets := by
  rw [parameterBrackets_eq]
  apply (Consumes.many parameterBracket_consumes r).bind
  intro found r₁ ts hts
  apply Consumes.pure
  rw [List.append_nil]
  exact ⟨found, rfl, hts⟩

theorem initializer_consumes : initializer.Consumes r LaidInitializer := by
  apply (Consumes.acceptKind (by simp) r).bind
  intro accepted r₁ ts hts
  cases accepted with
  | false =>
    obtain rfl : ts = [] := hts
    exact .pure ⟨.none, .nil, fun _ => .nil _⟩
  | true =>
    obtain ⟨t, rfl, ht⟩ := hts
    apply (expression_laid r₁).bind
    intro x r₂ us hus
    apply Consumes.pure
    rw [List.append_nil]
    have hfit : IntegersFit (t :: us) := .cons (by simp [ht]) hus.fit
    exact ⟨.value ht hus.derives, hfit, fun ho =>
      (Node.Embedded.single (hus.laid ho.tail)).behind [t]⟩

/-! ## Parts of statements -/

theorem clause_consumes (stops : List Symbol) :
    (clause stops).Consumes r (LaidClause r.current) := by
  apply Consumes.get
  split
  · exact .pure .omitted
  · apply (expression_laid r).bind
    intro x r₁ ts hts
    apply Consumes.pure
    rw [List.append_nil]
    exact .expression hts

theorem headerAttributes_consumes : headerAttributes.Consumes r LaidMarks := by
  apply (Consumes.acceptKind (by simp) r).bind
  intro accepted r₁ ts hts
  cases accepted with
  | false =>
    obtain rfl : ts = [] := hts
    exact .pure ⟨.none, fun _ => ⟨.none, .nil _⟩⟩
  | true =>
    obtain ⟨t, rfl, ht⟩ := hts
    exact (attributes_consumes r₁).mono fun us marks hus => .behind ht hus

theorem condition_consumes {k : Keyword} (hk : r.current.kind = .keyword k) (place : Place) :
    (condition place).Consumes r (LaidCondition k) := by
  apply (Consumes.advance (by simp [hk])).bind
  intro _ r₁ ts hts
  subst hts
  apply (Consumes.expect _ _ r₁).bind
  intro _ r₂ us hus
  obtain ⟨t, rfl, ht⟩ := hus
  apply (expression_laid r₂).bind
  intro x r₃ vs hvs
  apply (Consumes.expect _ _ r₃).bind
  intro _ r₄ ws hws
  apply Consumes.pure
  obtain ⟨u, rfl, hu⟩ := hws
  refine ⟨.parentheses hk ht hvs.derives hu, fun ho => ?_⟩
  have hx := hvs.laid ho.right.right.left
  exact ((Node.Embedded.single hx).before [u]).behind [r.current, t]

theorem optionalValue_consumes : optionalValue.Consumes r LaidValue := by
  apply Consumes.get
  split
  · exact .pure ⟨.none, fun _ => .nil _⟩
  · apply (expression_laid r).bind
    intro x r₁ ts hts
    apply Consumes.pure
    rw [List.append_nil]
    exact ⟨.value hts.derives, fun ho => .single (hts.laid ho)⟩

namespace Handling

/-! ## Declarations -/

theorem declareOnce_consumes (n : String) (type : VarType) (span : Span) :
    (declareOnce n type span).Consumes r fun ts v => ts = [] ∧ v.name = n := by
  intro hclosed hscoped v r' hrun
  rw [declareOnce_apply] at hrun
  split at hrun
  · cases hrun
  · next hagain =>
    have hdeclares := Context.declares_of_scopes (t := r.vars) hscoped.scopes n type span
      (Bool.eq_false_iff.mpr hagain)
    cases hrun
    have hsound := hdeclares.sound hscoped.context
    exact ⟨hclosed, ⟨hscoped.scopes.bind _ _ _, hsound⟩, [], ⟨rfl, rfl⟩, rfl, rfl⟩

theorem parameter_consumes {ts : List Token} {type : VarType} (hts : DerivesType ts type) :
    (strict.parameter type).Consumes r fun us v => DerivesParameter (ts ++ us) v := by
  refine (stars_consumes r).bind fun depth r₁ us hus => .get ?_
  apply (Consumes.identifier _ r₁).bind
  intro name r₂ vs hvs
  obtain ⟨rfl, hname, rfl⟩ := hvs
  apply (parameterBrackets_consumes r₂).bind
  intro n r₃ ws hws
  refine (declareOnce_consumes r₃ _ _ _).mono fun vs v hv => ?_
  obtain ⟨rfl, hv⟩ := hv
  obtain ⟨brackets, -, hws⟩ := hws
  have hv : v = ⟨v.id, r₁.current.lexeme⟩ := by rw [← hv]
  rw [hv]
  simpa using DerivesParameter.named hts hus hname hws

theorem parameterItem_consumes : strict.parameterItem.Consumes r fun ts o =>
    o.elim (ts = []) fun v =>
      ∃ t us, ts = t :: us ∧ t.kind = .symbol .comma ∧ DerivesParameter us v := by
  apply (Consumes.acceptKind (by simp) r).bind
  intro accepted r₁ ts hts
  cases accepted with
  | false => exact .pure (by simpa using hts)
  | true =>
    obtain ⟨t, rfl, ht⟩ := hts
    apply (typeName_consumes r₁).bind
    intro type r₂ us hus
    apply (parameter_consumes r₂ hus).bind
    intro v r₃ vs hv
    apply Consumes.pure
    exact ⟨t, us ++ vs, by simp, ht, hv⟩

theorem parameters_consumes : strict.parameters.Consumes r DerivesParameters := by
  apply Consumes.get
  split
  · have hnone : DerivesParameters [] (([] : List (List Token × VarRef)).map Prod.snd) :=
      .list .nil fun _ h => absurd h List.not_mem_nil
    exact .pure hnone
  · refine (typeName_consumes r).first.bind fun type r₁ ts hts => .get ?_
    split
    · next hvoid =>
      have hkind : r.current.kind = .keyword (.type .void) :=
        eq_of_beq (Bool.and_eq_true_iff.mp hvoid).1
      refine .pure ?_
      rw [List.append_nil]
      exact .void hts.1 (hts.1.base_eq fun t ht => by rw [hts.2 t ht, hkind])
    · apply (parameter_consumes r₁ hts.1).bind
      intro v r₂ us hus
      apply (Consumes.many parameterItem_consumes r₂).bind
      intro vs r₃ ws hws
      apply Consumes.pure
      rw [List.append_nil, ← List.append_assoc]
      obtain ⟨items, -, hvs, hcommas, hitems⟩ := Commas.of_rows hus hws
      rw [hvs]
      exact .list hcommas hitems

theorem declarator_consumes (type : VarType) :
    (strict.declarator type).Consumes r LaidDeclarator := by
  refine .get ((stars_consumes r).andThen fun depth r₁ ts htook hts => .get ?_)
  apply (Consumes.identifier _ r₁).andThen
  intro name r₂ us htook₁ hus
  obtain ⟨rfl, hname, rfl⟩ := hus
  apply (arrayBrackets_consumes r₂).andThen
  intro n r₃ us htook₂ hus
  apply (initializer_consumes r₃).andThen
  intro value r₄ vs htook₃ hvs
  refine (declareOnce_consumes r₄ _ _ _).andThen fun v r₅ ws htook₄ hws => .get (.pure ?_)
  obtain ⟨rfl, hv⟩ := hws
  obtain ⟨sizes, -, hus, -⟩ := hus
  have hv : v = ⟨v.id, r₁.current.lexeme⟩ := by rw [← hv]
  have htook := htook.append (htook₁.append (htook₂.append (htook₃.append htook₄)))
  rw [List.append_nil] at htook
  rw [hv, List.append_nil, List.append_nil]
  have hderives : DerivesDeclarator (ts ++ r₁.current :: (us ++ vs)) ⟨⟨v.id, _⟩, value,
      r.current.span.merge r₅.previous.span⟩ := .named hts hname hus hvs.derives
  refine ⟨hderives, fun ho => ?_⟩
  have hparts := ((hvs.laid ho.right.right.right).behind us).behind [r₁.current]
  exact .intro hderives (htook.bounds (by simp) ho) (hparts.behind ts)

theorem declaration_consumes : strict.declaration.Consumes r LaidDeclaration := by
  apply ((typeName_consumes r).and (typeName_stop r)).andThen
  intro type r₁ ts htook hts
  apply (Consumes.commaSeparated (fun r => declarator_consumes r type) r₁).andThen
  intro ds r₂ us htook₁ hus
  apply (Consumes.expect _ _ r₂).andThen
  intro _ r₃ vs htook₂ hvs
  apply Consumes.pure
  obtain ⟨hts, hstop⟩ := hts
  obtain ⟨items, hne, rfl, hcommas, hitems⟩ := hus
  obtain ⟨t, rfl, ht⟩ := hvs
  refine .of_commas hts hcommas hne hitems ht fun n hn => ?_
  obtain ⟨us, rfl⟩ := List.head?_eq_some_iff.mp hn
  exact htook₁.current ▸ hstop.current htook

theorem initClause_consumes : strict.initClause.Consumes r LaidInit := by
  refine .get ((Consumes.acceptKind (by simp) r).andThen fun accepted r₁ ts htook hts => ?_)
  cases accepted with
  | true =>
    obtain ⟨t, rfl, ht⟩ := hts
    rw [htook.current]
    exact .pure (.clause .omitted ht)
  | false =>
    obtain rfl : ts = [] := hts
    apply Consumes.get
    split
    · refine (declaration_consumes r₁).andThen fun ds r₂ us htook₁ hus => .get (.pure ?_)
      rw [List.append_nil]
      exact .declaration hus ((htook.append htook₁).bounds hus.derives.ne_nil)
    · apply (expression_laid r₁).bind
      intro x r₂ us hus
      apply (Consumes.expect _ _ r₂).bind
      intro _ r₃ vs hvs
      apply Consumes.pure
      obtain ⟨t, rfl, ht⟩ := hvs
      exact .clause (.expression hus) ht

/-! ## Statements -/

/-- Nothing is recovered from, and so every item is there. -/
theorem item_consumes {α : Type} {step : Parse α} {S : List Token → α → Prop} (stop : Reader → Bool)
    (recover : Reader → Reader → Reader) (h : ∀ r, step.Consumes r S) (r : Reader) :
    (itemUnless stop fun r => strict.recovering step (recover r)).Consumes r fun ts o =>
      o.elim (ts = []) fun i => ∃ a, i = some a ∧ S ts a := by
  have hitem : (strict.recovering step (recover r)).Consumes r fun ts o =>
      ∃ a, o = some a ∧ S ts a := by
    apply (h r).bind
    intro a r₁ ts ha
    apply Consumes.pure
    rw [List.append_nil]
    exact ⟨a, rfl, ha⟩
  apply Consumes.get
  split
  · exact .pure rfl
  · apply hitem.bind
    intro o r₁ ts ho
    apply Consumes.pure
    rw [List.append_nil]
    exact ho

section

variable {statement : Parse Stmt} (hkeeps : Parse.Keeps Reader.Extends statement)
  (h : ∀ r, statement.Consumes r LaidStmt)
include hkeeps h

theorem block_consumes : (strict.block statement).Consumes r LaidBlock := by
  have hextends : Parse.Keeps Reader.Extends (many (strict.blockItem statement)) :=
    (blockItem_keeps Reader.extends_invariant Reader.strict_extends hkeeps).many
      Reader.extends_invariant
  refine .get ((Consumes.expect _ _ r).andThen fun _ r₁ ts htook hts => ?_)
  apply (Consumes.inScope hextends (Consumes.many (item_consumes _ _ h)) r₁).andThen
  intro items r₂ us htook₁ hus
  refine (Consumes.expect _ _ r₂).andThen fun _ r₃ vs htook₂ hvs => .get (.pure ?_)
  obtain ⟨t, rfl, ht⟩ := hts
  obtain ⟨u, rfl, hu⟩ := hvs
  have hspan := (htook.append (htook₁.append htook₂)).bounds (List.cons_ne_nil _ _)
  exact ⟨.braces ht hus.somes hu, hspan⟩

omit hkeeps in
theorem forRest_consumes : (strict.forRest statement).Consumes r fun ts p =>
    ∃ us vs, ts = us ++ vs ∧
      LaidHeader us p.2.init p.2.check p.2.update p.1 ∧ LaidStmt vs p.2.body := by
  apply (initClause_consumes r).bind
  intro init r₁ ts hinit
  apply (clause_consumes r₁ _).andThen
  intro check r₂ us htook hcheck
  apply (Consumes.expect _ _ r₂).andThen
  intro _ r₃ ts₁ htook₁ hts₁
  apply (clause_consumes r₃ _).andThen
  intro update r₄ vs htook₂ hupdate
  apply (headerAttributes_consumes r₄).andThen
  intro more r₅ ws htook₃ hmore
  apply (Consumes.expect _ _ r₅).andThen
  intro _ r₆ ts₂ htook₄ hts₂
  apply (h r₆).bind
  intro body r₇ bs hbody
  apply Consumes.pure
  obtain ⟨t, rfl, ht⟩ := hts₁
  obtain ⟨u, rfl, hu⟩ := hts₂
  obtain ⟨v, behind, hbehind⟩ := List.exists_cons_of_ne_nil (List.concat_ne_nil u ws)
  have hupdate := hupdate.of_head (htook₂.current_mem (hbehind ▸ htook₃.append htook₄))
  have hheader := LaidHeader.of_clauses hinit (hcheck.of_head (htook.current_mem htook₁)) ht
    hupdate hmore hu (by rw [hbehind]; rfl)
  exact ⟨_, bs, by simp, hheader, hbody⟩

theorem forStatement_consumes (hk : r.current.kind = .keyword .forLoop) (marks : List Attribute) :
    (strict.forStatement statement marks).Consumes r fun ts s => LaidRest ts marks s := by
  have hextends : Parse.Keeps Reader.Extends (strict.forRest statement) :=
    forRest_keeps Reader.extends_invariant Reader.strict_extends hkeeps
  refine .get ((Consumes.advance (by simp [hk])).andThen fun _ r₁ ts htook hts => ?_)
  subst hts
  apply (Consumes.expect _ _ r₁).andThen
  intro _ r₂ ts htook₁ hts
  obtain ⟨u, rfl, hu⟩ := hts
  apply (Consumes.inScope hextends (fun r => forRest_consumes r h) r₂).andThen
  refine fun p r₃ ts htook₂ hts => .get (.pure ?_)
  obtain ⟨us, vs, rfl, hheader, hbody⟩ := hts
  have hspan := (htook.append (htook₁.append htook₂)).bounds (List.cons_ne_nil _ _)
  have hloop : LaidRest (r.current :: u :: (us ++ vs)) marks _ :=
    .forLoop hk hu hheader hbody (by simpa using hspan)
  simpa using hloop

theorem statementRest_consumes (marks : List Attribute) :
    (strict.statementRest statement marks).Consumes r fun ts s => LaidRest ts marks s := by
  refine .get (.get ?_)
  split
  · next hk => exact forStatement_consumes r hkeeps h hk marks
  · refine (block_consumes r hkeeps h).andThen fun b r₁ ts htook hts => .get (.pure ?_)
    rw [List.append_nil]
    exact .of_parts (.block hts.derives) rfl (htook.bounds hts.derives.ne_nil) fun ho =>
      ⟨trivial, (LaidStmt.block hts.derives ho).2⟩
  · next hk =>
    apply (condition_consumes r hk _).andThen
    intro c r₁ ts htook hts
    apply (h r₁).andThen
    intro thenBranch r₂ us htook₁ hus
    apply (Consumes.acceptKind (by simp) r₂).andThen
    intro accepted r₃ vs htook₂ hvs
    have hcondition := hts.derives
    cases accepted with
    | true =>
      obtain ⟨t, rfl, ht⟩ := hvs
      refine (h r₃).andThen fun elseBranch r₄ ws htook₃ hws => .get (.pure ?_)
      have htook := htook.append (htook₁.append (htook₂.append htook₃))
      have hspan := htook.bounds (by simp [hcondition.ne_nil])
      rw [List.append_nil]
      refine .of_parts (.ifElse hcondition hus ht hws) rfl hspan fun ho => ?_
      have hthen := (hus.laid ho.right.left).2
      have helse := (hws.laid ho.right.right.tail).2
      exact ⟨trivial, (hts.laid ho.left).append (hthen.append (helse.behind [t]))⟩
    | false =>
      obtain rfl : vs = [] := hvs
      have htook := htook.append (htook₁.append htook₂)
      refine .get (.pure ?_)
      simp only [List.append_nil] at htook ⊢
      have hspan := htook.bounds (by simp [hcondition.ne_nil])
      exact .of_parts (.ifThen hcondition hus) rfl hspan fun ho =>
        ⟨trivial, (hts.laid ho.left).append (hus.laid ho.right).2⟩
  · next hk =>
    apply (condition_consumes r hk _).andThen
    intro c r₁ ts htook hts
    refine (h r₁).andThen fun body r₂ us htook₁ hus => .get (.pure ?_)
    have hspan := (htook.append htook₁).bounds (by simp [hts.derives.ne_nil])
    rw [List.append_nil]
    exact .of_parts (.whileLoop hts.derives hus) rfl hspan fun ho =>
      ⟨trivial, (hts.laid ho.left).append (hus.laid ho.right).2⟩
  · next hk =>
    apply (Consumes.advance (by simp [hk])).andThen
    intro _ r₁ ts htook hts
    subst hts
    apply (optionalValue_consumes r₁).andThen
    intro value r₂ us htook₁ hus
    refine (Consumes.expect _ _ r₂).andThen fun _ r₃ vs htook₂ hvs => .get (.pure ?_)
    obtain ⟨u, rfl, hu⟩ := hvs
    have hspan := (htook.append (htook₁.append htook₂)).bounds (List.cons_ne_nil _ _)
    refine .of_parts (.returns hk hus.derives hu) rfl hspan fun ho => ?_
    have ho : InOrder (us ++ [u]) := ho.tail
    exact ⟨trivial, ((hus.laid ho.left).before [u]).behind [r.current]⟩
  · next hk =>
    refine (Consumes.advance (by simp [hk])).andThen fun _ r₁ ts htook hts => .get (.pure ?_)
    subst hts
    exact .of_parts (.empty hk) rfl (htook.bounds (List.cons_ne_nil _ _)) fun _ =>
      ⟨trivial, .nil _⟩
  · refine (declaration_consumes r).andThen fun ds r₁ ts htook hts => .get (.pure ?_)
    rw [List.append_nil]
    exact .of_parts (.declaration hts.derives) rfl (htook.bounds hts.derives.ne_nil) hts.laid
  · apply (expression_laid r).andThen
    intro x r₁ ts htook hts
    refine (Consumes.expect _ _ r₁).andThen fun _ r₂ us htook₁ hus => .get (.pure ?_)
    obtain ⟨t, rfl, ht⟩ := hus
    have hspan := (htook.append htook₁).bounds (by simp)
    exact .of_parts (.expression hts.derives ht) rfl hspan fun ho =>
      ⟨trivial, (Node.Embedded.single (hts.laid ho.left)).before [t]⟩

end

theorem statementFor_consumes (rounds : List Item) :
    (strict.statementFor rounds).Consumes r LaidStmt := by
  induction rounds generalizing r with
  | nil => exact .fail _
  | cons _ rounds ih =>
    have hkeeps : Parse.Keeps Reader.Extends (strict.statementFor rounds) :=
      statementFor_keeps Reader.extends_invariant Reader.strict_extends rounds
    refine (attributes_consumes r).bind fun marks r₁ ts hts => ?_
    exact (statementRest_consumes r₁ hkeeps ih marks).mono fun us s hus => .marked hts hus

theorem statement_consumes : strict.statement.Consumes r LaidStmt :=
  .get (statementFor_consumes r r.remaining)

/-! ## Functions -/

theorem functionRest_consumes : strict.functionRest.Consumes r fun ts p =>
    ∃ t us u vs, ts = t :: (us ++ u :: vs) ∧ t.kind = .symbol .leftParen ∧
      DerivesParameters us p.1 ∧ u.kind = .symbol .rightParen ∧ LaidBlock vs p.2 := by
  have hstatement : Parse.Keeps Reader.Extends strict.statement :=
    statement_keeps Reader.extends_invariant Reader.strict_extends
  apply (Consumes.expect _ _ r).bind
  intro _ r₁ ts hts
  apply (parameters_consumes r₁).bind
  intro params r₂ us hus
  apply (Consumes.expect _ _ r₂).bind
  intro _ r₃ vs hvs
  apply (block_consumes r₃ hstatement statement_consumes).bind
  intro b r₄ ws hws
  apply Consumes.pure
  obtain ⟨t, rfl, ht⟩ := hts
  obtain ⟨u, rfl, hu⟩ := hvs
  exact ⟨t, us, u, ws, by simp, ht, hus, hu, hws⟩

theorem function_consumes : strict.function.Consumes r LaidFunction := by
  have hextends : Parse.Keeps Reader.Extends strict.functionRest :=
    functionRest_keeps Reader.extends_invariant Reader.strict_extends
  refine (attributes_consumes r).bind fun marks r₁ ts hts => .get ?_
  apply (typeName_consumes r₁).andThen
  intro type r₂ us htook hus
  apply (Consumes.identifier _ r₂).andThen
  intro name r₃ vs htook₁ hvs
  obtain ⟨rfl, hname, rfl⟩ := hvs
  apply (Consumes.inScope hextends functionRest_consumes r₃).andThen
  refine fun p r₄ ws htook₂ hws => .get (.pure ?_)
  obtain ⟨t, vs, u, ws, rfl, ht, hparams, hu, hbody⟩ := hws
  have hmarks := hts.mono fun _ _ h => h.derives
  have hspan := (htook.append (htook₁.append htook₂)).bounds (by simp)
  let f : Function :=
    ⟨r₂.current.lexeme, type, p.1, p.2, marks, r₁.current.span.merge r₄.previous.span⟩
  have hderives : DerivesFunction (ts ++ (us ++ r₂.current :: t :: (vs ++ u :: ws))) f :=
    .named hmarks hus hname ht hparams hu (hbody.derives.imp fun _ _ _ h => h.derives)
  have hfunction : LaidFunction (ts ++ ((us ++ r₂.current :: t :: (vs ++ [u])) ++ ws)) f :=
    .of_body hts (by simpa using hderives) hbody (by simpa using hspan)
  simpa using hfunction

/-- The tokens of the functions of a program, one function behind the other. -/
theorem functions_consumes : strict.functions.Consumes r (Rows LaidFunction) := by
  apply (Consumes.many (item_consumes _ _ function_consumes) r).bind
  intro items r₁ ts hts
  apply Consumes.pure
  rw [List.append_nil]
  exact hts.somes

end Handling

end Grammar

end LoopNest
