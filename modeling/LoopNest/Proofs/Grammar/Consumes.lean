import LoopNest.Proofs.Grammar.Ensures
import LoopNest.Proofs.Grammar.Rules

/-!
# What a step of reading consumes

Whatever a reader of expressions yields, the tokens that it took derive it. It does not matter
whether problems were noted before or whether there are faults behind those tokens.

* `Reader.Closed`, `Reader.Scoped`: the readers that come of a source text.
* `Reader.Took`: the tokens between two readers.
* `Parse.Consumes`: a step that goes well takes tokens from the front, with a property of the tokens
  and the result.
* `Parse.Consumes.bind`, `Parse.Consumes.many`: one rule for each way to build a step from others.
* `Grammar.expression_consumes`: the tokens of an expression derive it.
-/

namespace LoopNest

namespace Reader

/-- Scopes and bindings are as they should be. -/
structure Scoped (r : Reader) : Prop where
  scopes : r.scopes.WellFormed
  context : r.context.Sound

theorem Sound.scoped {items : List Item} {r : Reader} (h : r.Sound items) : r.Scoped :=
  ⟨h.scopes, h.context⟩

theorem Closed.of_remaining {r r' : Reader} (h : r.Closed) (heq : r'.remaining = r.remaining) :
    r'.Closed := by
  obtain ⟨items, t, hremaining, ht⟩ := h
  exact ⟨items, t, heq.trans hremaining, ht⟩

/-- In front of the end of the file there is a next token to step to. -/
theorem Closed.advance {r : Reader} (h : r.Closed) (hkind : r.current.kind ≠ .endOfFile)
    (hok : r.advance.1 = .ok ()) :
    r.advance.2.Closed ∧ r.remaining = .token r.current :: r.advance.2.remaining := by
  obtain ⟨items, t, hremaining, ht⟩ := h
  have hne : items ≠ [] := by
    rintro rfl
    obtain ⟨hcurrent, _⟩ := List.cons.inj hremaining
    exact hkind (Item.token.inj hcurrent ▸ ht)
  obtain ⟨i, items, rfl⟩ := List.exists_cons_of_ne_nil hne
  have hitems : r.items = items ++ [.token t] := (List.cons.inj hremaining).2
  unfold Reader.advance at hok ⊢
  cases hrest : r.items with
  | nil => simp [hrest] at hitems
  | cons j rest =>
    cases j with
    | fault f =>
      rw [hrest] at hok
      cases hok
    | token u =>
      refine ⟨⟨items, t, ?_, ht⟩, ?_⟩
      · rw [← hitems, hrest]
        rfl
      · rw [remaining, hrest]
        rfl

/-- The tokens between two readers are determined. -/
theorem eq_of_remaining {r r' : Reader} {ts us : List Token}
    (hts : r.remaining = ts.map .token ++ r'.remaining)
    (hus : r.remaining = us.map .token ++ r'.remaining) : ts = us := by
  have hmap := List.append_cancel_right (hts.symm.trans hus)
  exact List.map_injective_iff.mpr (fun _ _ => Item.token.inj) hmap

/-- From `r` to `r'` these tokens were taken. The last one of them is the previous one then. -/
structure Took (r : Reader) (ts : List Token) (r' : Reader) : Prop where
  remaining : r.remaining = ts.map .token ++ r'.remaining
  previous : r'.previous = ts.getLast?.getD r.previous

namespace Took

variable {r r₁ r₂ : Reader} {ts us : List Token} {t : Token}

theorem nil (r : Reader) : r.Took [] r := ⟨rfl, rfl⟩

theorem append (h : r.Took ts r₁) (h' : r₁.Took us r₂) : r.Took (ts ++ us) r₂ := by
  constructor
  · rw [h.remaining, h'.remaining, List.map_append, List.append_assoc]
  · rw [h'.previous, h.previous, List.getLast?_append]
    cases us.getLast? <;> rfl

theorem unique (h : r.Took ts r₁) (h' : r.Took us r₁) : ts = us :=
  eq_of_remaining h.remaining h'.remaining

/-- The first token that was taken is the current one. -/
theorem current (h : r.Took (t :: ts) r₁) : r.current = t :=
  Item.token.inj (List.cons.inj h.remaining).1

/-- The last token that was taken is the previous one. -/
theorem last (h : r.Took ts r₁) (ht : t ∈ ts.getLast?) : r₁.previous = t := by
  rw [h.previous, ht]
  rfl

end Took

end Reader

namespace Parse

variable {α β : Type}

/-- If the step goes well then it takes tokens from the front, and these and its result satisfy
`Q`. -/
def Consumes (step : Parse α) (r : Reader) (Q : List Token → α → Prop) : Prop :=
  r.Closed → r.Scoped → ∀ a r', step r = (.ok a, r') →
    r'.Closed ∧ r'.Scoped ∧ ∃ ts, r.Took ts r' ∧ Q ts a

namespace Consumes

variable {r : Reader} {step : Parse α} {Q Q' : List Token → α → Prop}

theorem mono (h : step.Consumes r Q) (himp : ∀ ts a, Q ts a → Q' ts a) :
    step.Consumes r Q' := by
  intro hclosed hscoped a r' hrun
  obtain ⟨hclosed', hscoped', ts, htook, hq⟩ := h hclosed hscoped a r' hrun
  exact ⟨hclosed', hscoped', ts, htook, himp ts a hq⟩

/-- Both postconditions are about the tokens that were taken. -/
theorem and (h : step.Consumes r Q) (h' : step.Consumes r Q') :
    step.Consumes r fun ts a => Q ts a ∧ Q' ts a := by
  intro hclosed hscoped a r' hrun
  obtain ⟨hclosed', hscoped', ts, htook, hq⟩ := h hclosed hscoped a r' hrun
  obtain ⟨-, -, us, htook', hq'⟩ := h' hclosed hscoped a r' hrun
  obtain rfl := htook.unique htook'
  exact ⟨hclosed', hscoped', ts, htook, hq, hq'⟩

theorem pure {a : α} (h : Q [] a) : Consumes (Pure.pure a) r Q := by
  intro hclosed hscoped b r' hrun
  rw [pure_apply] at hrun
  cases hrun
  exact ⟨hclosed, hscoped, [], .nil r, h⟩

theorem fail (cause : Problem.Cause) : Consumes (Parse.fail cause) r Q := by
  intro _ _ a r' hrun
  cases hrun

/-- The tokens of the first step stand in front of those of the second one, which starts where they
are taken. -/
theorem andThen {next : α → Parse β} {R : List Token → β → Prop} (h : step.Consumes r Q)
    (hnext : ∀ a r₁ ts, r.Took ts r₁ → Q ts a →
      (next a).Consumes r₁ fun us b => R (ts ++ us) b) : (step >>= next).Consumes r R := by
  intro hclosed hscoped b r' hrun
  obtain ⟨a, r₁, hstep, hrun⟩ := bind_eq_ok hrun
  obtain ⟨hclosed₁, hscoped₁, ts, htook, hq⟩ := h hclosed hscoped a r₁ hstep
  obtain ⟨hclosed₂, hscoped₂, us, htook', hr⟩ :=
    hnext a r₁ ts htook hq hclosed₁ hscoped₁ b r' hrun
  exact ⟨hclosed₂, hscoped₂, ts ++ us, htook.append htook', hr⟩

/-- The tokens of the first step stand in front of those of the second one. -/
theorem bind {next : α → Parse β} {R : List Token → β → Prop} (h : step.Consumes r Q)
    (hnext : ∀ a r₁ ts, Q ts a → (next a).Consumes r₁ fun us b => R (ts ++ us) b) :
    (step >>= next).Consumes r R :=
  h.andThen fun a r₁ ts _ hq => hnext a r₁ ts hq

theorem get {next : Reader → Parse α} (h : (next r).Consumes r Q) :
    (MonadStateOf.get >>= next).Consumes r Q := h

theorem advance (h : r.current.kind ≠ .endOfFile) :
    Parse.advance.Consumes r fun ts _ => ts = [r.current] := by
  intro hclosed hscoped _ r' hrun
  rw [advance_apply] at hrun
  cases hok : r.advance.1 with
  | error f =>
    rw [hok] at hrun
    cases hrun
  | ok _ =>
    obtain ⟨hclosed', hremaining⟩ := hclosed.advance h hok
    have hrun : r.advance.2 = r' := (Prod.mk.inj hrun).2
    subst hrun
    have hprevious : r.advance.2.previous = r.current := by
      unfold Reader.advance at hok ⊢
      split at hok
      · rfl
      · rfl
      · cases hok
    refine ⟨hclosed', ?_, [r.current], ⟨hremaining, hprevious⟩, rfl⟩
    have hkeep : r.advance.2.scopes = r.scopes ∧ r.advance.2.vars = r.vars := by
      unfold Reader.advance
      split <;> exact ⟨rfl, rfl⟩
    have hcontext : r.advance.2.context = r.context := by
      rw [Reader.context, hkeep.1, hkeep.2, Reader.context]
    exact ⟨hkeep.1 ▸ hscoped.scopes, hcontext ▸ hscoped.context⟩

theorem acceptKind {k : Token.Kind} (hk : k ≠ .endOfFile) (r : Reader) :
    (Parse.acceptKind k).Consumes r fun ts accepted =>
      if accepted then ∃ t, ts = [t] ∧ t.kind = k else ts = [] := by
  refine .get ?_
  split
  · next hsees =>
    have hkind : r.current.kind = k := eq_of_beq hsees
    exact (advance (hkind ▸ hk)).bind fun _ _ ts hts => .pure ⟨r.current, by simp [hts], hkind⟩
  · exact .pure rfl

/-- Only a token of that kind is passed over. -/
theorem acceptKind_iff {k : Token.Kind} (hk : k ≠ .endOfFile) (r : Reader) :
    (Parse.acceptKind k).Consumes r fun _ accepted => accepted = true ↔ r.current.kind = k := by
  refine .get ?_
  split
  · next hsees =>
    have hkind : r.current.kind = k := eq_of_beq hsees
    exact (advance (hkind ▸ hk)).bind fun _ _ _ _ => .pure (by simp [hkind])
  · next hsees => exact .pure (by simpa [Reader.sees] using hsees)

theorem expect (s : Symbol) (place : Place) (r : Reader) :
    (Parse.expect s place).Consumes r fun ts _ => ∃ t, ts = [t] ∧ t.kind = .symbol s := by
  refine .get ?_
  split
  · next hsees =>
    have hkind : r.current.kind = .symbol s := eq_of_beq hsees
    exact (advance (by simp [hkind])).mono fun ts _ hts => ⟨r.current, hts, hkind⟩
  · exact .fail _

theorem identifier (named : Named) (r : Reader) : (Parse.name named).Consumes r fun ts n =>
    ts = [r.current] ∧ r.current.kind = .identifier ∧ n = r.current.lexeme := by
  refine .get ?_
  split
  · next hsees =>
    have hkind : r.current.kind = .identifier := eq_of_beq hsees
    refine (advance (by simp [hkind])).bind fun _ _ ts hts => .pure ?_
    rw [hts, List.append_nil]
    exact ⟨rfl, hkind, rfl⟩
  · exact .fail _

theorem name (named : Named) (r : Reader) :
    (Parse.name named).Consumes r fun ts _ => ts = [r.current] :=
  (identifier named r).mono fun _ _ h => h.1

theorem resolve (n : String) (span : Span) (r : Reader) :
    (Parse.resolve n span).Consumes r fun ts v => ts = [] ∧ v.name = n := by
  intro hclosed hscoped v r' hrun
  obtain ⟨hname, hscopes, hresolves⟩ :=
    Context.resolves_of_scopes hscoped.scopes hscoped.context n span
  rw [resolve_apply] at hrun
  cases hrun
  exact ⟨hclosed, ⟨hscopes, hresolves.sound hscoped.context⟩, [], ⟨rfl, rfl⟩, rfl, hname⟩

/-- A repeated step takes the tokens of a row. -/
theorem many {item : Parse (Option α)} {S : List Token → α → Prop}
    (h : ∀ r, item.Consumes r fun ts o => o.elim (ts = []) fun a => S ts a) (r : Reader) :
    (Parse.many item).Consumes r (Grammar.Rows S) := by
  have hrounds (rounds : List Item) (r : Reader) :
      (manyFor item rounds).Consumes r (Grammar.Rows S) := by
    induction rounds generalizing r with
    | nil => exact .pure .nil
    | cons _ rounds ih =>
      refine (h r).bind fun o r₁ ts ho => ?_
      cases o with
      | none =>
        obtain rfl : ts = [] := ho
        exact .pure .nil
      | some a =>
        refine (ih r₁).bind fun as _ us has => .pure ?_
        rw [List.append_nil]
        exact .cons ho has
  exact .get (hrounds r.remaining r)

/-- A comma and an item behind it. -/
theorem separated {item : Parse α} {S : List Token → α → Prop} (h : ∀ r, item.Consumes r S)
    (r : Reader) : (Parse.separated item).Consumes r fun ts o => o.elim (ts = []) fun a =>
      ∃ t us, ts = t :: us ∧ t.kind = .symbol .comma ∧ S us a := by
  refine (acceptKind (by simp) r).bind fun accepted r₁ ts hts => ?_
  cases accepted with
  | false => exact .pure (by simpa using hts)
  | true =>
    obtain ⟨t, rfl, ht⟩ := hts
    exact (h r₁).bind fun a _ us ha => .pure ⟨t, us, by simp, ht, ha⟩

/-- Items with commas between them. -/
theorem commaSeparated {item : Parse α} {S : List Token → α → Prop}
    (h : ∀ r, item.Consumes r S) (r : Reader) :
    (Parse.commaSeparated item).Consumes r fun ts as => ∃ items : List (List Token × α),
      items ≠ [] ∧ as = items.map Prod.snd ∧ Grammar.Commas (items.map Prod.fst) ts ∧
        ∀ i ∈ items, S i.1 i.2 := by
  refine (h r).bind fun a r₁ ts ha => (many (separated h) r₁).bind fun as _ us has => .pure ?_
  rw [List.append_nil]
  exact Grammar.Commas.of_rows ha has

/-- The first token that is taken is the current one. -/
theorem first {step : Parse α} (h : step.Consumes r Q) :
    step.Consumes r fun ts a => Q ts a ∧ ∀ t ∈ ts.head?, t = r.current := by
  intro hclosed hscoped a r' hrun
  obtain ⟨hclosed', hscoped', ts, htook, hq⟩ := h hclosed hscoped a r' hrun
  refine ⟨hclosed', hscoped', ts, htook, hq, fun t ht => ?_⟩
  obtain ⟨us, rfl⟩ := List.head?_eq_some_iff.mp ht
  exact htook.current.symm

end Consumes

/-- What a run without problems takes from the front. -/
theorem Ensures.consumes {items : List Item} {r : Reader} {step : Parse α}
    {Q : α → Reader → Prop} {P : List Token → α → Prop} (h : step.Ensures items r Q)
    (h' : step.Consumes r P) : step.Ensures items r fun a r' =>
      Q a r' ∧ ∃ ts : List Token, r.remaining = ts.map .token ++ r'.remaining ∧ P ts a := by
  intro hclean
  obtain ⟨hstart, hrun⟩ := h hclean
  refine ⟨hstart, fun hsound a ha => ?_⟩
  obtain ⟨hsound', hleads, hq⟩ := hrun hsound a ha
  obtain ⟨_, _, ts, htook, hp⟩ := h' hsound.closed hsound.scoped a (step r).2 (Prod.ext ha rfl)
  exact ⟨hsound', hleads, hq, ts, htook.remaining, hp⟩

end Parse

/-! ## The symbols of operators -/

theorem UnaryOp.symbol_of_before {k : Token.Kind} {op : UnaryOp} (h : k.unaryBefore? = some op) :
    k = .symbol op.symbol := by
  unfold Token.Kind.unaryBefore? at h
  split at h <;> cases h <;> rfl

theorem UnaryOp.symbol_of_behind {k : Token.Kind} {op : UnaryOp} (h : k.unaryBehind? = some op) :
    (op = .increment ∨ op = .decrement) ∧ k = .symbol op.symbol := by
  unfold Token.Kind.unaryBehind? at h
  split at h <;> cases h
  · exact ⟨.inl rfl, rfl⟩
  · exact ⟨.inr rfl, rfl⟩

theorem BinaryOp.symbol_of_binary {k : Token.Kind} {op : BinaryOp} (h : k.binary? = some op) :
    k = .symbol op.symbol := by
  cases k with
  | symbol s =>
    have hall : ∀ s ∈ Symbol.all, ∀ op ∈ (Token.Kind.symbol s).binary?, s = op.symbol := by decide
    rw [hall s s.mem_all op h]
  | _ => cases h

namespace Grammar

open Parse

/-! ## Expressions -/

section

variable {R : Nat → List Token → Expr → Prop} (hR : Rules R) {inner : Parse Expr}

include hR in
theorem literal_consumes {r : Reader} {value : Option Literal} (cause : Problem.Cause)
    (hkind : r.current.kind ≠ .endOfFile)
    (h : ∀ v ∈ value, literalOf? r.current = some v ∧ IntegersFit [r.current]) :
    (literal value cause r.current.span).Consumes r (R 10) := by
  cases value with
  | none => exact .fail _
  | some v =>
    refine (Consumes.advance hkind).bind fun _ _ ts hts => .pure ?_
    obtain ⟨hvalue, hfit⟩ := h v rfl
    rw [hts, List.append_nil]
    exact hR.literal hvalue hfit

theorem literalOf?_of_integer {t : Token} (ht : t.kind = .integer) :
    ∀ v ∈ integerLiteral t.lexeme, literalOf? t = some v ∧ IntegersFit [t] := by
  intro v hv
  unfold integerLiteral at hv
  dsimp only at hv
  split at hv
  · next hle =>
    refine ⟨?_, List.forall_mem_singleton.mpr fun _ => hle⟩
    simpa [literalOf?, ht] using hv
  · cases hv

theorem arguments_consumes {S : List Token → Expr → Prop} (h : ∀ r, inner.Consumes r S)
    (r : Reader) : (arguments inner).Consumes r fun ts xs =>
      ∃ args : List (List Token × Expr), xs = args.map Prod.snd ∧ Commas (args.map Prod.fst) ts ∧
        ∀ a ∈ args, S a.1 a.2 := by
  refine .get ?_
  split
  · exact .pure ⟨[], rfl, .nil, by simp⟩
  · exact (Consumes.commaSeparated h r).mono fun _ _ ⟨args, _, hargs⟩ => ⟨args, hargs⟩

variable (h : ∀ r, inner.Consumes r (R 1))
include hR h

theorem primary_consumes (r : Reader) : (primary inner).Consumes r (R 10) := by
  refine .get ?_
  dsimp only
  have hplain (hkind : r.current.kind ≠ .integer) : IntegersFit [r.current] := .cons hkind .nil
  split
  · next hkind => exact literal_consumes hR _ (by simp [hkind]) (literalOf?_of_integer hkind)
  · next hkind =>
    refine literal_consumes hR _ (by simp [hkind]) fun v hv => ⟨?_, hplain (by simp [hkind])⟩
    simpa [literalOf?, hkind] using hv
  · next hkind =>
    refine literal_consumes hR _ (by simp [hkind]) fun v hv => ⟨?_, hplain (by simp [hkind])⟩
    simpa [literalOf?, hkind] using hv
  · next hkind =>
    refine (Consumes.advance (by simp [hkind])).bind fun _ r₁ ts hts => ?_
    subst hts
    refine (Consumes.acceptKind (by simp) r₁).bind fun accepted r₂ us hus => ?_
    cases accepted with
    | true =>
      obtain ⟨t, rfl, ht⟩ := hus
      refine (arguments_consumes h r₂).bind fun xs r₃ vs hvs => ?_
      obtain ⟨args, rfl, hcommas, hargs⟩ := hvs
      refine (Consumes.expect _ _ r₃).andThen fun _ r₄ ws htook hws => .get (.pure ?_)
      obtain ⟨u, rfl, hu⟩ := hws
      rw [htook.last rfl]
      simpa using hR.call hkind ht hcommas hargs hu
    | false =>
      obtain rfl : us = [] := hus
      refine (Consumes.resolve _ _ r₂).bind fun v r₃ vs hvs => .pure ?_
      obtain ⟨rfl, hname⟩ := hvs
      have hv : v = ⟨v.id, r.current.lexeme⟩ := by rw [← hname]
      rw [hv]
      exact hR.name hkind
  · next hkind =>
    refine (Consumes.advance (by simp [hkind])).bind fun _ r₁ ts hts => ?_
    subst hts
    refine (h r₁).bind fun x r₂ us hus => ?_
    refine (Consumes.expect _ _ r₂).andThen fun _ r₃ vs htook hvs => .get (.pure ?_)
    obtain ⟨u, rfl, hu⟩ := hvs
    rw [htook.last rfl]
    simpa using hR.parentheses hkind hus hu
  · exact .fail _

theorem suffixed_consumes (r : Reader) : (suffixed inner).Consumes r (R 9) := by
  have hsuffix (r : Reader) : (suffix inner).Consumes r fun ts o =>
      o.elim (ts = []) fun s => Rules.SuffixOf R ts s := by
    refine .get ?_
    dsimp only
    split
    · next op hop =>
      obtain ⟨hop, hkind⟩ := UnaryOp.symbol_of_behind hop
      refine (Consumes.advance (by simp [hkind])).andThen fun _ _ ts htook hts => .get (.pure ?_)
      subst hts
      rw [htook.last rfl]
      exact .operator hop hkind
    · refine (Consumes.acceptKind (by simp) r).bind fun accepted r₁ ts hts => ?_
      cases accepted with
      | false => exact .pure (by simpa using hts)
      | true =>
        obtain ⟨t, rfl, ht⟩ := hts
        refine (h r₁).bind fun i r₂ us hus => ?_
        refine (Consumes.expect _ _ r₂).andThen fun _ r₃ vs htook hvs => .get (.pure ?_)
        obtain ⟨u, rfl, hu⟩ := hvs
        rw [htook.last rfl]
        simpa using Rules.SuffixOf.subscript ht hus hu
  refine (primary_consumes hR h r).bind fun p r₁ ts hp => ?_
  refine (Consumes.many hsuffix r₁).bind fun ss _ us hss => .pure ?_
  rw [List.append_nil]
  exact hR.withSuffixes (hR.tighter hp) hss

theorem unary_consumes (r : Reader) : (unary inner).Consumes r (R 8) := by
  have hoperator (r : Reader) : operatorBefore.Consumes r fun ts o =>
      o.elim (ts = []) fun op => Rules.OperatorBefore ts op := by
    refine .get ?_
    dsimp only
    split
    · next op hop =>
      have hkind := UnaryOp.symbol_of_before hop
      refine (Consumes.advance (by simp [hkind])).bind fun _ _ ts hts => .pure ?_
      exact ⟨r.current, by simp [hts], hkind, rfl⟩
    · exact .pure rfl
  refine (Consumes.many hoperator r).bind fun ops r₁ ts hops => ?_
  refine (suffixed_consumes hR h r₁).bind fun x _ us hx => .pure ?_
  rw [List.append_nil]
  exact hR.withOperatorsBefore hops (hR.tighter hx)

end

/-- An operator of the level with an operand of the level above it. -/
theorem operatorAndOperand_consumes {R : Nat → List Token → Expr → Prop} {operand : Parse Expr}
    {level : Nat} (h : ∀ r, operand.Consumes r (R (level + 1))) (r : Reader) :
    (operatorAndOperand level operand).Consumes r fun ts o =>
      o.elim (ts = []) fun next => Rules.Operand R level ts next := by
  refine .get ?_
  split
  · next op hop =>
    obtain ⟨hbinary, hprecedence⟩ := Option.filter_eq_some_iff.mp hop
    have hkind := BinaryOp.symbol_of_binary hbinary
    refine (Consumes.advance (by simp [hkind])).bind fun _ r₁ ts hts => ?_
    refine (h r₁).bind fun y _ us hy => .pure ?_
    exact ⟨r.current, us, by simp [hts], eq_of_beq hprecedence, hkind, hy⟩
  · exact .pure rfl

section

variable {R : Nat → List Token → Expr → Prop} (hR : Rules R) {inner : Parse Expr}
  (h : ∀ r, inner.Consumes r (R 1))
include hR h

theorem operands_consumes {n : Nat} (hn : n ≤ 6) (r : Reader) :
    (operands inner n).Consumes r (R (8 - n)) := by
  induction n generalizing r with
  | zero => exact unary_consumes hR h r
  | succ n ih =>
    have hlevel : 8 - n = 7 - n + 1 := by omega
    have hlevel' : 8 - (n + 1) = 7 - n := by omega
    have hoperand (r : Reader) : (operands inner n).Consumes r (R (7 - n + 1)) :=
      hlevel ▸ ih (by omega) r
    rw [hlevel']
    refine (hoperand r).bind fun x r₁ ts hx => ?_
    refine (Consumes.many (operatorAndOperand_consumes hoperand) r₁).bind
      fun rest _ us hrest => .pure ?_
    rw [List.append_nil]
    exact hR.joinLeft (by omega) (hR.tighter hx) hrest

theorem assignment_consumes (r : Reader) : (assignment inner).Consumes r (R 1) := by
  have hoperand := operands_consumes hR h (Nat.le_refl 6)
  refine (hoperand r).bind fun x r₁ ts hx => ?_
  refine (Consumes.many (operatorAndOperand_consumes hoperand) r₁).bind
    fun rest _ us hrest => .pure ?_
  rw [List.append_nil]
  exact hR.joinRight hx hrest

end

/-- Whatever has the rules of expressions holds of the tokens of an expression that is read. -/
theorem expression_consumes_of_rules {R : Nat → List Token → Expr → Prop} (hR : Rules R)
    (r : Reader) : expression.Consumes r (R 1) := by
  have hrounds (rounds : List Item) (r : Reader) : (expressionFor rounds).Consumes r (R 1) := by
    induction rounds generalizing r with
    | nil => exact .fail _
    | cons _ rounds ih => exact assignment_consumes hR ih r
  exact .get (hrounds r.remaining r)

/-- The tokens of an expression that is read derive it. -/
theorem expression_consumes (r : Reader) : expression.Consumes r (Derives 1) :=
  expression_consumes_of_rules .derives r

end Grammar

end LoopNest
