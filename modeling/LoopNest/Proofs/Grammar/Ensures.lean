import LoopNest.Proofs.Grammar.Yields
import LoopNest.Proofs.Token.Order
import LoopNest.Proofs.Variable.Context

/-!
# What a run without problems ensures

A step of reading may note a problem and go on. Only runs that end without a problem count, and
those had none on the way: every step in them went well.

* `Reader.Sound`: the state in which a reader is as long as there are no problems.
* `Reader.Leads`: what is left in place from one reader to a later one.
* `Parse.Ensures`: a run without problems goes from a sound reader to a sound one, with a
  property of the result and of both readers.
* `Parse.Ensures.bind`, `Parse.Ensures.many`, `Parse.Ensures.inScope`,
  `Parse.Ensures.recovering`, `Parse.Ensures.manyItems`: one rule for each way to build a step from
  others.
-/

namespace LoopNest

namespace Reader

/-- What names stand for where the reader is. -/
def context (r : Reader) : Context := ⟨r.vars, r.scopes.frames⟩

theorem context_push {r : Reader} (h : r.scopes.WellFormed) :
    ({ r with scopes := r.scopes.push } : Reader).context = r.context.push := by
  unfold context Context.push
  rw [Scopes.frames_push h]

/-- Closing the scope that was opened takes the names that were bound in it. -/
theorem context_pop {r s : Reader} (h : r.scopes.push.Extends s.scopes)
    (hs : s.scopes.WellFormed) :
    ({ s with scopes := s.scopes.pop } : Reader).context = s.context.pop ∧
      s.context.frames.tail ≠ [] := by
  have hframes := h.frames_pop hs
  refine ⟨?_, ?_⟩
  · unfold context Context.pop
    rw [hframes]
  · obtain ⟨f, fs, hcons⟩ := Scopes.frames_eq_cons hs.pop
    show s.scopes.frames.tail ≠ []
    rw [← hframes, hcons]
    exact List.cons_ne_nil _ _

/-- The end of the file is the last item that lies ahead. -/
def Closed (r : Reader) : Prop :=
  ∃ items t, r.remaining = items ++ [.token t] ∧ t.kind = .endOfFile

theorem Closed.of_suffix {r r' : Reader} (h : r.Closed) (hsuffix : r'.remaining <:+ r.remaining) :
    r'.Closed := by
  obtain ⟨items, t, hremaining, ht⟩ := h
  rw [hremaining, List.suffix_concat_iff] at hsuffix
  rcases hsuffix with hnil | ⟨rest, hrest, -⟩
  · cases hnil
  · exact ⟨rest, t, hrest, ht⟩

/-- Scopes and bindings are as they should be, and what lies ahead is the rear of the items of the
source, which are in order. -/
structure Sound (items : List Item) (r : Reader) : Prop where
  strict : items.Pairwise fun i j => ∀ t, i = .token t → t.span.start.offset < j.span.start.offset
  within : r.remaining <:+ items
  closed : r.Closed
  scopes : r.scopes.WellFormed
  context : r.context.Sound
  proper : ∀ i ∈ r.remaining, i.Proper
  previous : r.previous.Proper
  sorted : (r.previous.span.start.offset ::
    r.remaining.map fun i => i.span.start.offset).Pairwise (· ≤ ·)

/-- The reader `r'` comes from `r` by steps that closed the scopes that they opened. -/
structure Leads (r r' : Reader) : Prop where
  scopes : r.scopes.Extends r'.scopes
  vars : r.vars.Extends r'.vars
  previous_le : r.previous.span.start.offset ≤ r'.previous.span.start.offset
  current_le : r.current.span.start.offset ≤ r'.current.span.start.offset

variable {items : List Item} {r r₁ r₂ : Reader}

theorem Leads.refl (r : Reader) : r.Leads r :=
  ⟨.refl _, .refl _, Nat.le_refl _, Nat.le_refl _⟩

theorem Leads.trans (h : r.Leads r₁) (h' : r₁.Leads r₂) : r.Leads r₂ :=
  ⟨h.scopes.trans h'.scopes, h.vars.trans h'.vars, Nat.le_trans h.previous_le h'.previous_le,
    Nat.le_trans h.current_le h'.current_le⟩

namespace Sound

theorem current_proper (h : r.Sound items) : r.current.Proper := h.proper _ List.mem_cons_self

theorem previous_le (h : r.Sound items) :
    r.previous.span.start.offset ≤ r.current.span.start.offset :=
  (List.pairwise_cons.mp h.sorted).1 _ List.mem_cons_self

/-- The next token starts behind the current one. -/
theorem current_lt {r' : Reader} (h : r.Sound items)
    (hremaining : r.remaining = .token r.current :: r'.remaining) :
    r.current.span.start.offset < r'.current.span.start.offset := by
  have hstrict := h.strict.sublist h.within.sublist
  rw [hremaining] at hstrict
  exact (List.pairwise_cons.mp hstrict).1 (.token r'.current) List.mem_cons_self r.current rfl

/-- The items that were read do not matter any more. -/
theorem here (h : r.Sound items) : r.Sound r.remaining :=
  { h with
    strict := h.strict.sublist h.within.sublist
    within := List.suffix_rfl }

/-- Names may come to stand for other things while the tokens stay. -/
theorem of_context {r' : Reader} (h : r.Sound items) (hscopes : r'.scopes.WellFormed)
    (hcontext : r'.context.Sound) (hremaining : r'.remaining = r.remaining)
    (hprevious : r'.previous = r.previous) : r'.Sound items := by
  refine ⟨h.strict, hremaining ▸ h.within, h.closed.of_suffix (hremaining ▸ List.suffix_rfl), hscopes,
    hcontext, ?_, ?_, ?_⟩
  · rw [hremaining]
    exact h.proper
  · rw [hprevious]
    exact h.previous
  · rw [hremaining, hprevious]
    exact h.sorted

end Sound

/-! ## Passing over tokens keeps the problems -/

@[simp] theorem problems_advance (r : Reader) : r.advance.2.problems = r.problems := by
  unfold advance
  split <;> rfl

@[simp] theorem problems_skip (r : Reader) : r.skip.problems = r.problems := by
  have h := problems_advance r
  unfold skip
  split <;> simp_all [stopHere]

@[simp] theorem problems_skipFor (stop : Reader → Bool) (rounds : List Item) (r : Reader) :
    (skipFor stop rounds r).problems = r.problems := by
  induction rounds generalizing r with
  | nil => rfl
  | cons i rounds ih =>
    rw [skipFor]
    split
    · rfl
    · rw [ih, problems_skip]

@[simp] theorem problems_skipUntil (stop : Reader → Bool) (r : Reader) :
    (r.skipUntil stop).problems = r.problems :=
  problems_skipFor stop r.remaining r

theorem problems_addProblem_ne (r : Reader) (p : Problem) : (r.addProblem p).problems ≠ [] := by
  simp [addProblem]

/-- The next token: the one that is passed is the previous one then, and names keep their
meaning. -/
theorem advance_spec (h : r.Sound items) (hok : r.advance.1 = .ok ()) :
    r.advance.2.Sound items ∧ r.Leads r.advance.2 ∧ r.advance.2.previous = r.current ∧
      r.advance.2.context = r.context := by
  unfold advance at hok ⊢
  have hcurrent := (List.pairwise_cons.mp h.sorted).2
  cases hitems : r.items with
  | nil =>
    have hremaining : r.remaining = [.token r.current] := by rw [remaining, hitems]
    refine ⟨⟨h.strict, ?_, ?_, h.scopes, h.context, ?_, h.current_proper, ?_⟩, ⟨.refl _, .refl _,
      h.previous_le, Nat.le_refl _⟩, rfl, rfl⟩
    · have hwithin := h.within
      rwa [hremaining] at hwithin
    · have hclosed := h.closed
      rwa [Closed, hremaining] at hclosed
    · exact List.forall_mem_singleton.mpr h.current_proper
    · simp [remaining, Item.span]
  | cons i rest =>
    cases i with
    | fault f =>
      rw [hitems] at hok
      cases hok
    | token t =>
      have hremaining : r.remaining = .token r.current :: .token t :: rest := by
        rw [remaining, hitems]
      have hsuffix : .token t :: rest <:+ r.remaining := hremaining ▸ List.suffix_cons _ _
      rw [hremaining] at hcurrent
      refine ⟨⟨h.strict, hsuffix.trans h.within, h.closed.of_suffix hsuffix, h.scopes, h.context,
        fun i hi => h.proper i (hsuffix.subset hi), h.current_proper, hcurrent⟩,
        ⟨.refl _, .refl _, h.previous_le, ?_⟩, rfl, rfl⟩
      exact (List.pairwise_cons.mp hcurrent).1 _ List.mem_cons_self

end Reader

namespace Parse

variable {α β : Type}

/-- A run of the step at `r` that ends without problems started without any; and if the reader was
sound then it is so behind the step, and the result satisfies `Q` there. -/
def Ensures (items : List Item) (step : Parse α) (r : Reader) (Q : α → Reader → Prop) : Prop :=
  (step r).2.problems = [] →
    r.problems = [] ∧ (r.Sound items → ∀ a, (step r).1 = .ok a →
      (step r).2.Sound items ∧ r.Leads (step r).2 ∧ Q a (step r).2)

namespace Ensures

variable {items : List Item} {r : Reader} {step : Parse α} {Q Q' : α → Reader → Prop}

/-- The postcondition may be proved for sound readers with the same scopes around them. -/
theorem mono (h : step.Ensures items r Q)
    (himp : ∀ a r', r.Sound items → r'.Sound items → r.Leads r' → Q a r' → Q' a r') :
    step.Ensures items r Q' := by
  intro hclean
  obtain ⟨hstart, hrun⟩ := h hclean
  refine ⟨hstart, fun hsound a ha => ?_⟩
  obtain ⟨hsound', hleads, hq⟩ := hrun hsound a ha
  exact ⟨hsound', hleads, himp a _ hsound hsound' hleads hq⟩

theorem pure {a : α} (h : r.Sound items → Q a r) : Ensures items (Pure.pure a) r Q := by
  intro hclean
  refine ⟨hclean, fun hsound b hb => ?_⟩
  cases hb
  exact ⟨hsound, .refl _, h hsound⟩

theorem fail (cause : Problem.Cause) : Ensures items (Parse.fail cause) r Q :=
  fun hclean => ⟨hclean, fun _ _ ha => by cases ha⟩

/-- A step that goes on with the result of another one. What the first one ensures may be used in
what the second one does. -/
theorem bind {next : α → Parse β} {R : β → Reader → Prop} (h : step.Ensures items r Q)
    (hnext : ∀ a r₁, (next a).Ensures items r₁ fun b r₂ =>
      r.Sound items → r₁.Sound items → r.Leads r₁ → Q a r₁ → R b r₂) :
    (step >>= next).Ensures items r R := by
  intro hclean
  have hbind := bind_apply step next r
  rcases hstep : step r with ⟨result, r₁⟩
  rw [hstep] at hbind
  unfold Ensures at h
  rw [hstep] at h
  cases result with
  | error failure =>
    rw [hbind] at hclean ⊢
    exact ⟨(h hclean).1, fun _ a ha => by cases ha⟩
  | ok a =>
    dsimp only at hbind h
    rw [hbind] at hclean ⊢
    obtain ⟨hclean₁, hrun₁⟩ := hnext a r₁ hclean
    obtain ⟨hstart, hrun⟩ := h hclean₁
    refine ⟨hstart, fun hsound b hb => ?_⟩
    obtain ⟨hsound₁, hleads₁, hq⟩ := hrun hsound a rfl
    obtain ⟨hsound₂, hleads₂, hr⟩ := hrun₁ hsound₁ b hb
    exact ⟨hsound₂, hleads₁.trans hleads₂, hr hsound hsound₁ hleads₁ hq⟩

/-- A step that looks at the reader first. -/
theorem get {next : Reader → Parse α} (h : (next r).Ensures items r Q) :
    (MonadStateOf.get >>= next).Ensures items r Q := h

/-! ## Tokens -/

theorem advance (r : Reader) : Parse.advance.Ensures items r fun _ r' =>
    r'.previous = r.current ∧ r'.context = r.context := by
  intro hclean
  rw [advance_apply] at hclean ⊢
  refine ⟨by simpa using hclean, fun hsound _ ha => ?_⟩
  have hok : r.advance.1 = .ok () := by
    cases h : r.advance.1 with
    | error f =>
      rw [h] at ha
      cases ha
    | ok _ => rfl
  obtain ⟨hsound', hleads, hprevious, hcontext⟩ := r.advance_spec hsound hok
  exact ⟨hsound', hleads, hprevious, hcontext⟩

theorem acceptKind (k : Token.Kind) (r : Reader) :
    (Parse.acceptKind k).Ensures items r fun accepted r' => r'.context = r.context ∧
      if accepted then r.current.kind = k ∧ r'.previous = r.current
      else r' = r ∧ r.current.kind ≠ k := by
  refine .get ?_
  split
  · next hsees =>
    refine (advance r).bind fun _ r₁ => .pure fun _ _ _ _ h => ⟨h.2, ?_⟩
    exact ⟨eq_of_beq hsees, h.1⟩
  · next hsees => exact .pure fun _ => ⟨rfl, rfl, fun h => hsees (beq_iff_eq.mpr h)⟩

theorem expect (s : Symbol) (place : Place) (r : Reader) :
    (Parse.expect s place).Ensures items r fun _ r' =>
      r'.context = r.context ∧ r'.previous = r.current := by
  refine .get ?_
  split
  · exact (advance r).mono fun _ _ _ _ _ h => ⟨h.2, h.1⟩
  · exact .fail _

theorem name (named : Named) (r : Reader) : (Parse.name named).Ensures items r fun n r' =>
    Text.IsName n ∧ r'.context = r.context ∧ r'.previous = r.current := by
  refine .get ?_
  split
  · next hsees =>
    refine (advance r).bind fun _ r₁ => .pure fun _ hsound _ _ h => ⟨?_, h.2, h.1⟩
    exact hsound.current_proper.name (eq_of_beq hsees)
  · exact .fail _

/-- A new variable, whose name the open scope did not declare before. -/
theorem declare (n : String) (type : VarType) (span : Span) (r : Reader) :
    (Parse.declare n type span).Ensures items r fun v r' =>
      v.name = n ∧ r.context.Declares v type r'.context ∧ r'.current = r.current ∧
        r'.context.vars.get? v.id = some ⟨n, type, span, false⟩ := by
  intro hclean
  rw [declare_apply] at hclean ⊢
  dsimp only at hclean ⊢
  split at hclean
  · exact absurd hclean (Reader.problems_addProblem_ne _ _)
  · next hagain =>
    rw [if_neg hagain]
    refine ⟨hclean, fun hsound v hv => ?_⟩
    obtain rfl := Except.ok.inj hv
    have hdeclares := Context.declares_of_scopes (t := r.vars) hsound.scopes n type span
      (Bool.eq_false_iff.mpr hagain)
    refine ⟨?_, ⟨.bind _ _ _, .add _ _, Nat.le_refl _, Nat.le_refl _⟩, rfl, hdeclares, rfl,
      VarTable.get?_add_self _ _⟩
    exact hsound.of_context (hsound.scopes.bind _ _ _) (hdeclares.sound hsound.context) rfl rfl

/-- The variable that the name stands for. -/
theorem resolve (n : String) (span : Span) (r : Reader) :
    (Parse.resolve n span).Ensures items r fun v r' =>
      v.name = n ∧ r.context.Resolves v r'.context ∧ r'.current = r.current := by
  intro hclean
  refine ⟨hclean, fun hsound v hv => ?_⟩
  obtain ⟨hname, hscopes, hresolves⟩ :=
    Context.resolves_of_scopes hsound.scopes hsound.context n span
  rw [resolve_apply] at hv ⊢
  obtain rfl := Except.ok.inj hv
  have hsound' : Reader.Sound items { r with
      vars := (r.scopes.resolve r.vars n span).2.1
      scopes := (r.scopes.resolve r.vars n span).2.2 } :=
    hsound.of_context hscopes (hresolves.sound hsound.context) rfl rfl
  refine ⟨hsound', ⟨?_, hresolves.extends, Nat.le_refl _, Nat.le_refl _⟩, hname, hresolves, rfl⟩
  unfold Scopes.resolve
  split
  · exact .refl _
  · exact .bind _ _ _

/-! ## Repetition -/

/-- What a repeated step ensures, if it takes nothing where it yields nothing. -/
theorem many {item : Parse (Option α)} {S : Reader → α → Reader → Prop}
    {I : Reader → List α → Reader → Prop}
    (h : ∀ r, item.Ensures items r fun o r' => o.elim (r' = r) fun a => S r a r')
    (hnil : ∀ r, I r [] r)
    (hcons : ∀ {r a r₁ as r₂}, r₁.Leads r₂ → S r a r₁ → I r₁ as r₂ → I r (a :: as) r₂)
    (r : Reader) : (Parse.many item).Ensures items r fun as r' => I r as r' := by
  have hrounds (rounds : List Item) (r : Reader) :
      (manyFor item rounds).Ensures items r fun as r' => I r as r' := by
    induction rounds generalizing r with
    | nil => exact .pure fun _ => hnil r
    | cons _ rounds ih =>
      refine (h r).bind fun o r₁ => ?_
      cases o with
      | none =>
        refine .pure fun _ _ _ _ heq => ?_
        obtain rfl : r₁ = r := heq
        exact hnil r₁
      | some a =>
        exact (ih r₁).bind fun as r₂ => .pure fun _ _ _ hleads hi _ _ _ hs => hcons hleads hs hi
  exact .get (hrounds r.remaining r)

/-- A repeated step that takes something in each round stops where it yields nothing. -/
theorem manyUntil {item : Parse (Option α)} {N : Reader → Prop} {S : Reader → α → Reader → Prop}
    {I : Reader → List α → Reader → Prop}
    (h : ∀ r, item.Ensures items r fun o r' => o.elim (r' = r ∧ N r) fun a =>
      r'.remaining.length < r.remaining.length ∧ S r a r')
    (hnil : ∀ r, N r → I r [] r)
    (hcons : ∀ {r a r₁ as r₂}, S r a r₁ → I r₁ as r₂ → I r (a :: as) r₂)
    (r : Reader) : (Parse.many item).Ensures items r fun as r' => I r as r' := by
  have hrounds (rounds : List Item) (r : Reader) : (manyFor item rounds).Ensures items r
      fun as r' => r.remaining.length ≤ rounds.length → I r as r' := by
    induction rounds generalizing r with
    | nil => exact .pure fun _ hle => absurd hle (by simp [Reader.remaining])
    | cons _ rounds ih =>
      refine (h r).bind fun o r₁ => ?_
      cases o with
      | none =>
        refine .pure fun _ _ _ _ hnone _ => ?_
        obtain ⟨rfl, hstop⟩ := hnone
        exact hnil r₁ hstop
      | some a =>
        refine (ih r₁).bind fun as r₂ => .pure fun _ _ _ _ hi _ _ _ hs hle => ?_
        rw [List.length_cons] at hle
        exact hcons hs.2 (hi (by have := hs.1; omega))
  exact .get ((hrounds r.remaining r).mono fun _ _ _ _ _ hi => hi (Nat.le_refl _))

/-- What a repeated step does to names, if each round does something to them. -/
theorem manyChain {item : Parse (Option α)} {S : Context → α → Context → Prop}
    (h : ∀ r, item.Ensures items r fun o r' => o.elim (r' = r) fun a => S r.context a r'.context)
    (r : Reader) :
    (Parse.many item).Ensures items r fun as r' => Context.Chain S r.context as r'.context :=
  many (I := fun r as r' => Context.Chain S r.context as r'.context) h (fun r => .nil r.context)
    (fun _ hs hchain => .cons hs hchain) r

/-- What an item behind a comma does to names. -/
theorem separated {item : Parse α} {S : Context → α → Context → Prop}
    (h : ∀ r, item.Ensures items r fun a r' => S r.context a r'.context) (r : Reader) :
    (Parse.separated item).Ensures items r fun o r' =>
      o.elim (r' = r) fun a => S r.context a r'.context := by
  refine (acceptKind _ r).bind fun accepted r₁ => ?_
  cases accepted with
  | false => exact .pure fun _ _ _ _ hclosed => hclosed.2.1
  | true =>
    refine (h r₁).bind fun a r₂ => .pure fun _ _ _ _ hs _ _ _ hcomma => ?_
    rw [← hcomma.1]
    exact hs

/-- What items with commas between them do to names. -/
theorem commaSeparated {item : Parse α} {S : Context → α → Context → Prop}
    (h : ∀ r, item.Ensures items r fun a r' => S r.context a r'.context) (r : Reader) :
    (Parse.commaSeparated item).Ensures items r fun as r' =>
      as ≠ [] ∧ Context.Chain S r.context as r'.context := by
  refine (h r).bind fun a r₁ => (manyChain (separated h) r₁).bind fun as r₂ => .pure ?_
  exact fun _ _ _ _ hchain _ _ _ hs => ⟨List.cons_ne_nil _ _, .cons hs hchain⟩

/-! ## Scopes and recovery -/

/-- A step in a scope of its own: its names are forgotten behind it. -/
theorem inScope {P : Reader → α → Reader → Prop}
    (h : ∀ r, step.Ensures items r fun a r' => P r a r') (r : Reader) :
    (Parse.inScope step).Ensures items r fun a r' => ∃ r₁ r₂, P r₁ a r₂ ∧
      r₁.context = r.context.push ∧ r₁.current = r.current ∧ r₁.previous = r.previous ∧
      r'.context = r₂.context.pop ∧ r'.current = r₂.current ∧ r'.previous = r₂.previous := by
  intro hclean
  let r₁ : Reader := { r with scopes := r.scopes.push }
  rw [inScope_apply] at hclean ⊢
  obtain ⟨hstart, hstep⟩ := h r₁ hclean
  refine ⟨hstart, fun hsound a ha => ?_⟩
  have hcontext : r₁.context = r.context.push := Reader.context_push hsound.scopes
  have hsound₁ : r₁.Sound items :=
    hsound.of_context hsound.scopes.push (hcontext ▸ hsound.context.push) rfl rfl
  obtain ⟨hsound₂, hleads, hp⟩ := hstep hsound₁ a ha
  generalize (step r₁).2 = r₂ at *
  obtain ⟨hpop, hne⟩ := Reader.context_pop hleads.scopes hsound₂.scopes
  refine ⟨?_, ⟨hleads.scopes.pop, hleads.vars, hleads.previous_le, hleads.current_le⟩,
    r₁, r₂, hp, hcontext, rfl, rfl, hpop, rfl, rfl⟩
  exact hsound₂.of_context hsound₂.scopes.pop (hpop ▸ hsound₂.context.pop hne) rfl rfl

/-- Without problems, nothing was recovered from. -/
theorem recovering (h : step.Ensures items r Q) {recover : Reader → Reader}
    (hrecover : ∀ r, (recover r).problems = r.problems) :
    (Parse.recovering step recover).Ensures items r fun o r' => ∃ a, o = some a ∧ Q a r' := by
  intro hclean
  have hstep := h
  unfold Ensures at hstep
  unfold Parse.recovering at hclean ⊢
  rcases hrun : step r with ⟨result, r₁⟩
  rw [hrun] at hstep hclean
  cases result with
  | error failure =>
    dsimp only at hclean
    rw [hrecover] at hclean
    exact absurd hclean (Reader.problems_addProblem_ne _ _)
  | ok a =>
    obtain ⟨hstart, hok⟩ := hstep hclean
    refine ⟨hstart, fun hsound o ho => ?_⟩
    obtain rfl := Except.ok.inj ho
    obtain ⟨hsound', hleads, hq⟩ := hok hsound a rfl
    exact ⟨hsound', hleads, a, rfl, hq⟩

section

variable {S : Reader → α → Reader → Prop} (stop : Reader → Bool)
  {recover : Reader → Reader → Reader} (h : ∀ r, step.Ensures items r fun a r' => S r a r')
  (hrecover : ∀ r s, (recover r s).problems = s.problems)
include h hrecover

/-- An item that was read unless there was none left. -/
theorem item (r : Reader) : (Parse.itemUnless stop fun r => Parse.recovering step (recover r)).Ensures
    items r fun o r' => o.elim (r' = r) fun i => ∃ a, i = some a ∧ S r a r' := by
  refine .get ?_
  split
  · exact .pure fun _ => rfl
  · exact ((h r).recovering (hrecover r)).bind fun o r₁ => .pure fun _ _ _ _ ho => ho

/-- Items that were read unless there was none left, all of them. -/
theorem manyItems {I : Reader → List α → Reader → Prop} (hnil : ∀ r, I r [] r)
    (hcons : ∀ {r a r₁ as r₂}, r₁.Leads r₂ → S r a r₁ → I r₁ as r₂ → I r (a :: as) r₂)
    (r : Reader) :
    (Parse.many (Parse.itemUnless stop fun r => Parse.recovering step (recover r))).Ensures items r
      fun found r' => I r (found.filterMap id) r' := by
  refine Ensures.many (I := fun r found r' => I r (found.filterMap id) r') (item stop h hrecover) hnil
    (fun hleads ho hrest => ?_) r
  obtain ⟨a, rfl, ha⟩ := ho
  exact hcons hleads ha hrest

end

end Ensures

end Parse

end LoopNest
