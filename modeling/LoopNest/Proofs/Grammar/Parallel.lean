import LoopNest.Proofs.Grammar.Accepts
import LoopNest.Proofs.Grammar.Onward
import LoopNest.Proofs.Stmt.Unplaced

/-!
# Two texts with the same words

Two source texts may have the same words at different places. Reading takes the same steps on both
of them, also where it fails and goes on behind a problem: whether a statement failed at its first
token is decided by a span, but the tokens of either text stand at different places, so that the
span tells them apart.

* `Reader.Parallel`: two readers of two such texts that are equally far.
* `Parse.Parallel`: two steps go well or fail together, and their results are the same without
  places.
* `Parse.Parallel.bind`, `Parse.Parallel.many`, `Parse.Parallel.recovering`: one rule for each way
  to build a step from others.
-/

namespace LoopNest

/-! ## Readers -/

namespace Reader

/-- The tokens ahead end with the end of the file, and each starts in front of those behind it. -/
structure Ordered (r : Reader) : Prop where
  closed : r.Closed
  strict : r.remaining.Pairwise fun i j => ∀ t, i = .token t →
    t.span.start.offset < j.span.start.offset

theorem Ordered.of_suffix {r r₁ : Reader} (h : r.Ordered) (hsuffix : r₁.remaining <:+ r.remaining) :
    r₁.Ordered :=
  ⟨h.closed.of_suffix hsuffix, h.strict.sublist hsuffix.sublist⟩

/-- The current token of a reader that is further on stands at another place. -/
theorem Ordered.span_eq_iff {r r₁ : Reader} (h : r.Ordered)
    (hsuffix : r₁.remaining <:+ r.remaining) :
    r₁.current.span = r.current.span ↔ r₁.remaining.length = r.remaining.length := by
  constructor
  · intro hspan
    obtain ⟨passed, hpassed⟩ := hsuffix
    cases passed with
    | nil => rw [← hpassed, List.nil_append]
    | cons i passed =>
      obtain ⟨rfl, hitems⟩ := List.cons.inj hpassed
      have hmem : .token r₁.current ∈ r.items :=
        hitems ▸ List.mem_append_right passed List.mem_cons_self
      have hlt := (List.pairwise_cons.mp h.strict).1 _ hmem r.current rfl
      rw [← hspan] at hlt
      exact absurd hlt (Nat.lt_irrefl _)
  · intro hlength
    obtain ⟨hcurrent, -⟩ := List.cons.inj (hsuffix.eq_of_length hlength)
    rw [Item.token.inj hcurrent]

/-- The readers stand in texts with the same words, equally far, and what they have found so far is
the same without places. -/
structure Parallel (r r' : Reader) : Prop where
  left : r.Ordered
  right : r'.Ordered
  words : ∃ ws, r.Sees ws ∧ r'.Sees ws
  previous : r.previous.kind = r'.previous.kind
  problems : r.problems.map Problem.unplaced = r'.problems.map Problem.unplaced
  vars : r.vars.unplaced = r'.vars.unplaced
  scopes : r.scopes = r'.scopes

namespace Parallel

variable {r r' : Reader}

theorem word_eq (h : r.Parallel r') : r.current.word = r'.current.word := by
  obtain ⟨ws, hws, hws'⟩ := h.words
  obtain ⟨ts, hremaining, hwords⟩ := id hws
  cases ts with
  | nil => cases hremaining
  | cons t ts =>
    subst hwords
    rw [hws.word_current, hws'.word_current]

theorem kind_eq (h : r.Parallel r') : r.current.kind = r'.current.kind :=
  congrArg Word.kind h.word_eq

theorem lexeme_eq (h : r.Parallel r') : r.current.lexeme = r'.current.lexeme :=
  congrArg Word.lexeme h.word_eq

theorem sees_eq (h : r.Parallel r') (k : Token.Kind) : r.sees k = r'.sees k :=
  congrArg (· == k) h.kind_eq

theorem seesSymbol_eq (h : r.Parallel r') (s : Symbol) : r.seesSymbol s = r'.seesSymbol s :=
  h.sees_eq (.symbol s)

theorem seesKeyword_eq (h : r.Parallel r') (k : Keyword) : r.seesKeyword k = r'.seesKeyword k :=
  h.sees_eq (.keyword k)

theorem atEnd_eq (h : r.Parallel r') : r.atEnd = r'.atEnd :=
  congrArg (· == Token.Kind.endOfFile) h.kind_eq

theorem length_eq (h : r.Parallel r') : r.remaining.length = r'.remaining.length := by
  obtain ⟨ws, hws, hws'⟩ := h.words
  rw [hws.length_remaining, hws'.length_remaining]

/-- What lies ahead is the same, and what was found may have changed in the same way. -/
theorem of_remaining {r₁ r₁' : Reader} (h : r.Parallel r') (hr : r₁.remaining = r.remaining)
    (hr' : r₁'.remaining = r'.remaining) (hprevious : r₁.previous.kind = r₁'.previous.kind)
    (hproblems : r₁.problems.map Problem.unplaced = r₁'.problems.map Problem.unplaced)
    (hvars : r₁.vars.unplaced = r₁'.vars.unplaced) (hscopes : r₁.scopes = r₁'.scopes) :
    r₁.Parallel r₁' := by
  obtain ⟨ws, hws, hws'⟩ := h.words
  exact ⟨h.left.of_suffix (hr ▸ List.suffix_rfl), h.right.of_suffix (hr' ▸ List.suffix_rfl),
    ⟨ws, hws.of_remaining hr, hws'.of_remaining hr'⟩, hprevious, hproblems, hvars, hscopes⟩

end Parallel

/-- From parallel readers two runs went on to parallel readers. -/
structure BothOnward (r r' r₁ r₁' : Reader) : Prop where
  parallel : r₁.Parallel r₁'
  left : r₁.remaining <:+ r.remaining
  right : r₁'.remaining <:+ r'.remaining

namespace BothOnward

variable {r r' r₁ r₁' r₂ r₂' : Reader}

theorem refl (h : r.Parallel r') : BothOnward r r' r r' := ⟨h, List.suffix_rfl, List.suffix_rfl⟩

theorem trans (h : BothOnward r r' r₁ r₁') (h' : BothOnward r₁ r₁' r₂ r₂') :
    BothOnward r r' r₂ r₂' :=
  ⟨h'.parallel, h'.left.trans h.left, h'.right.trans h.right⟩

end BothOnward

/-- A step to the next token that goes well. -/
theorem advance_of_ok {r : Reader} (hok : r.advance.1 = .ok ()) :
    r.advance.2.previous = r.current ∧ r.advance.2.remaining <:+ r.remaining := by
  unfold Reader.advance at hok ⊢
  split at hok
  · exact ⟨rfl, List.suffix_rfl⟩
  · next t items hitems =>
    refine ⟨rfl, ?_⟩
    rw [remaining, remaining, hitems]
    exact List.suffix_cons _ _
  · cases hok

/-- Where only tokens lie ahead the next one is reached, and the last one stays. -/
theorem Sees.advance_sees {r : Reader} {w : Word} {ws : List Word} (h : r.Sees (w :: ws)) :
    r.advance.1 = .ok () ∧ r.advance.2.Sees (if ws = [] then [w] else ws) := by
  by_cases hws : ws = []
  · subst hws
    have hlength := h.length_remaining
    have hitems : r.items = [] := List.eq_nil_of_length_eq_zero (Nat.succ.inj hlength)
    unfold Reader.advance
    rw [hitems]
    exact ⟨rfl, h.of_remaining (by simp [remaining, hitems])⟩
  · rw [if_neg hws]
    exact h.advance hws

theorem keeps_advance (r : Reader) : r.advance.2.problems = r.problems ∧
    r.advance.2.vars = r.vars ∧ r.advance.2.scopes = r.scopes := by
  unfold advance
  split <;> exact ⟨rfl, rfl, rfl⟩

theorem Parallel.advance {r r' : Reader} (h : r.Parallel r') :
    r.advance.1 = .ok () ∧ r'.advance.1 = .ok () ∧
      BothOnward r r' r.advance.2 r'.advance.2 := by
  obtain ⟨ws, hws, hws'⟩ := h.words
  cases ws with
  | nil =>
    obtain ⟨ts, hremaining, hwords⟩ := hws
    obtain rfl := List.map_eq_nil_iff.mp hwords
    cases hremaining
  | cons w ws =>
    obtain ⟨hok, hsees⟩ := hws.advance_sees
    obtain ⟨hok', hsees'⟩ := hws'.advance_sees
    obtain ⟨hprevious, hsuffix⟩ := advance_of_ok hok
    obtain ⟨hprevious', hsuffix'⟩ := advance_of_ok hok'
    obtain ⟨hproblems, hvars, hscopes⟩ := r.keeps_advance
    obtain ⟨hproblems', hvars', hscopes'⟩ := r'.keeps_advance
    refine ⟨hok, hok', ⟨h.left.of_suffix hsuffix, h.right.of_suffix hsuffix', ⟨_, hsees, hsees'⟩,
      ?_, ?_, ?_, ?_⟩, hsuffix, hsuffix'⟩
    · rw [hprevious, hprevious', h.kind_eq]
    · rw [hproblems, hproblems', h.problems]
    · rw [hvars, hvars', h.vars]
    · rw [hscopes, hscopes', h.scopes]

theorem skip_of_ok {r : Reader} (h : r.advance.1 = .ok ()) : r.skip = r.advance.2 := by
  unfold skip
  split
  · next hadvance => rw [hadvance]
  · next hadvance =>
    rw [hadvance] at h
    cases h

theorem Parallel.skip {r r' : Reader} (h : r.Parallel r') : BothOnward r r' r.skip r'.skip := by
  obtain ⟨hok, hok', hboth⟩ := h.advance
  rw [skip_of_ok hok, skip_of_ok hok']
  exact hboth

/-- Passing over tokens stops at the same place, if the place is no matter of spans. -/
theorem Parallel.skipUntil {stop : Reader → Bool}
    (hstop : ∀ r r' : Reader, r.Parallel r' → stop r = stop r') {r r' : Reader}
    (h : r.Parallel r') : BothOnward r r' (r.skipUntil stop) (r'.skipUntil stop) := by
  have hrounds (rounds rounds' : List Item) (hlength : rounds.length = rounds'.length)
      (r r' : Reader) (h : r.Parallel r') :
      BothOnward r r' (skipFor stop rounds r) (skipFor stop rounds' r') := by
    induction rounds generalizing rounds' r r' with
    | nil =>
      obtain rfl := List.eq_nil_of_length_eq_zero hlength.symm
      exact .refl h
    | cons i rounds ih =>
      obtain ⟨i', rounds', rfl⟩ := List.exists_cons_of_length_eq_add_one hlength.symm
      rw [skipFor, skipFor, h.atEnd_eq, hstop r r' h]
      split
      · exact .refl h
      · exact h.skip.trans (ih rounds' (Nat.succ.inj hlength) _ _ h.skip.parallel)
  exact hrounds _ _ h.length_eq r r' h

end Reader

/-! ## Steps -/

/-- Both steps went well with results of which `f` makes the same, or both failed with a problem
that is the same without its place. -/
inductive Failure.Outcomes {α β : Type} (f : α → β) : Except Failure α → Except Failure α → Prop
  | ok {a a' : α} (h : f a = f a') : Outcomes f (.ok a) (.ok a')
  | error {p p' : Problem} (h : p.unplaced = p'.unplaced) :
      Outcomes f (.error (.problem p)) (.error (.problem p'))

open Failure (Outcomes)

namespace Parse

variable {α β γ δ : Type}

/-- At parallel readers the two steps lead to parallel readers, and they go well or fail together.
Their results are the same as far as `f` goes. -/
def Parallel (f : α → γ) (step step' : Parse α) (r r' : Reader) : Prop :=
  r.Parallel r' →
    Reader.BothOnward r r' (step r).2 (step' r').2 ∧ Outcomes f (step r).1 (step' r').1

namespace Parallel

variable {r r' : Reader} {f : α → γ} {g : β → δ} {step step' : Parse α}

/-- The readers may be taken to be parallel. -/
theorem intro (h : r.Parallel r' → step.Parallel f step' r r') : step.Parallel f step' r r' :=
  fun hparallel => h hparallel hparallel

theorem pure {a a' : α} (h : f a = f a') : Parallel f (Pure.pure a) (Pure.pure a') r r' :=
  fun hparallel => ⟨.refl hparallel, .ok h⟩

theorem fail (cause : Problem.Cause) :
    Parallel f (Parse.fail cause) (Parse.fail cause) r r' := by
  intro hparallel
  refine ⟨.refl hparallel, .error ?_⟩
  unfold Reader.problemHere Problem.unplaced
  rw [hparallel.kind_eq]

theorem bind {next next' : α → Parse β} (h : step.Parallel f step' r r')
    (hnext : ∀ a a' r₁ r₁', f a = f a' → (next a).Parallel g (next' a') r₁ r₁') :
    (step >>= next).Parallel g (step' >>= next') r r' := by
  intro hparallel
  obtain ⟨hboth, houtcomes⟩ := h hparallel
  rw [bind_apply, bind_apply]
  rcases hstep : step r with ⟨result, r₁⟩
  rcases hstep' : step' r' with ⟨result', r₁'⟩
  rw [hstep, hstep'] at hboth houtcomes
  cases houtcomes with
  | error hp => exact ⟨hboth, .error hp⟩
  | ok ha =>
    obtain ⟨hboth', houtcomes'⟩ := hnext _ _ r₁ r₁' ha hboth.parallel
    exact ⟨hboth.trans hboth', houtcomes'⟩

/-- Steps that look at the readers first. -/
theorem get {next next' : Reader → Parse α}
    (h : r.Parallel r' → (next r).Parallel f (next' r') r r') :
    (MonadStateOf.get >>= next).Parallel f (MonadStateOf.get >>= next') r r' := intro h

theorem ite {p : Prop} [Decidable p] {other other' : Parse α}
    (h : p → step.Parallel f step' r r') (hother : ¬ p → other.Parallel f other' r r') :
    (if p then step else other).Parallel f (if p then step' else other') r r' := by
  by_cases hp : p
  · rw [if_pos hp, if_pos hp]
    exact h hp
  · rw [if_neg hp, if_neg hp]
    exact hother hp

/-! ## Tokens -/

theorem advance (r r' : Reader) : Parse.advance.Parallel id Parse.advance r r' := by
  intro hparallel
  obtain ⟨hok, hok', hboth⟩ := hparallel.advance
  rw [advance_apply, advance_apply, hok, hok']
  exact ⟨hboth, .ok rfl⟩

theorem acceptKind (k : Token.Kind) (r r' : Reader) :
    (Parse.acceptKind k).Parallel id (Parse.acceptKind k) r r' := by
  refine .get fun h => ?_
  rw [h.sees_eq k]
  exact .ite (fun _ => (advance r r').bind fun _ _ _ _ _ => .pure rfl) fun _ => .pure rfl

theorem accept (s : Symbol) (r r' : Reader) :
    (Parse.accept s).Parallel id (Parse.accept s) r r' := acceptKind (.symbol s) r r'

theorem expect (s : Symbol) (place : Place) (r r' : Reader) :
    (Parse.expect s place).Parallel id (Parse.expect s place) r r' := by
  refine .get fun h => ?_
  rw [h.seesSymbol_eq s]
  exact .ite (fun _ => advance r r') fun _ => .fail _

theorem name (named : Named) (r r' : Reader) :
    (Parse.name named).Parallel id (Parse.name named) r r' := by
  refine .get fun h => ?_
  rw [h.sees_eq .identifier, h.lexeme_eq]
  exact .ite (fun _ => (advance r r').bind fun _ _ _ _ _ => .pure rfl) fun _ => .fail _

theorem declare (n : String) (type : VarType) (span span' : Span) (r r' : Reader) :
    (Parse.declare n type span).Parallel id (Parse.declare n type span') r r' := by
  intro hparallel
  have hrun (span : Span) (r : Reader) : Parse.declare n type span r =
      (.ok (r.vars.declare n type span).1,
        let r₁ := { r with
          vars := (r.vars.declare n type span).2
          scopes := r.scopes.bind r.scopes.current n (r.vars.declare n type span).1 }
        if (r.scopes.find? n r.scopes.current).isSome then
          r₁.addProblem ⟨.redefinition n, span, none⟩
        else r₁) := rfl
  obtain ⟨hv, hvars⟩ := VarTable.declare_unplaced hparallel.vars n type span span'
  rw [hrun, hrun, hparallel.scopes, hv]
  dsimp only
  split
  · refine ⟨⟨hparallel.of_remaining rfl rfl hparallel.previous ?_ hvars rfl, List.suffix_rfl,
      List.suffix_rfl⟩, .ok rfl⟩
    simp only [Reader.addProblem, List.map_append, hparallel.problems]
    rfl
  · exact ⟨⟨hparallel.of_remaining rfl rfl hparallel.previous hparallel.problems hvars rfl,
      List.suffix_rfl, List.suffix_rfl⟩, .ok rfl⟩

theorem resolve (n : String) (span span' : Span) (r r' : Reader) :
    (Parse.resolve n span).Parallel id (Parse.resolve n span') r r' := by
  intro hparallel
  obtain ⟨hv, hvars⟩ := VarTable.declareImplicit_unplaced hparallel.vars n span span'
  rw [resolve_apply, resolve_apply]
  unfold Scopes.resolve
  rw [hparallel.scopes]
  cases r'.scopes.lookup n with
  | some v =>
    exact ⟨⟨hparallel.of_remaining rfl rfl hparallel.previous hparallel.problems hparallel.vars
      rfl, List.suffix_rfl, List.suffix_rfl⟩, .ok rfl⟩
  | none =>
    refine ⟨⟨hparallel.of_remaining rfl rfl hparallel.previous hparallel.problems hvars ?_,
      List.suffix_rfl, List.suffix_rfl⟩, .ok hv⟩
    dsimp only
    rw [hv]

/-! ## Repetition, scopes and recovery -/

theorem manyFor {item item' : Parse (Option α)}
    (h : ∀ r r', item.Parallel (Option.map f) item' r r') {rounds rounds' : List Item}
    (hlength : rounds.length = rounds'.length) (r r' : Reader) :
    (Parse.manyFor item rounds).Parallel (List.map f) (Parse.manyFor item' rounds') r r' := by
  induction rounds generalizing rounds' r r' with
  | nil =>
    obtain rfl := List.eq_nil_of_length_eq_zero hlength.symm
    exact .pure rfl
  | cons i rounds ih =>
    obtain ⟨i', rounds', rfl⟩ := List.exists_cons_of_length_eq_add_one hlength.symm
    refine (h r r').bind fun o o' r₁ r₁' ho => ?_
    cases o with
    | none =>
      obtain rfl : o' = none := Option.map_eq_none_iff.mp ho.symm
      exact .pure rfl
    | some a =>
      obtain ⟨a', rfl, ha⟩ := Option.map_eq_some_iff.mp ho.symm
      refine (ih (Nat.succ.inj hlength) r₁ r₁').bind fun as as' _ _ has => .pure ?_
      rw [List.map_cons, List.map_cons, ha, has]

theorem many {item item' : Parse (Option α)}
    (h : ∀ r r', item.Parallel (Option.map f) item' r r') (r r' : Reader) :
    (Parse.many item).Parallel (List.map f) (Parse.many item') r r' :=
  .get fun hparallel => manyFor h hparallel.length_eq r r'

theorem commaSeparated {item item' : Parse α} (h : ∀ r r', item.Parallel f item' r r')
    (r r' : Reader) :
    (Parse.commaSeparated item).Parallel (List.map f) (Parse.commaSeparated item') r r' := by
  have hseparated (r r' : Reader) :
      (separated item).Parallel (Option.map f) (separated item') r r' := by
    refine (accept .comma r r').bind fun b b' r₁ r₁' hb => ?_
    obtain rfl : b = b' := hb
    refine .ite (fun _ => (h r₁ r₁').bind fun a a' _ _ ha => .pure ?_) fun _ => .pure rfl
    exact congrArg some ha
  refine (h r r').bind fun a a' r₁ r₁' ha => ?_
  refine (many hseparated r₁ r₁').bind fun as as' _ _ has => .pure ?_
  rw [List.map_cons, List.map_cons, ha, has]

theorem itemUnless {stop : Reader → Bool} {item : Reader → Parse α} {item' : Reader → Parse α}
    (hstop : r.Parallel r' → stop r = stop r')
    (h : r.Parallel r' → (item r).Parallel f (item' r') r r') :
    (Parse.itemUnless stop item).Parallel (Option.map f) (Parse.itemUnless stop item') r r' := by
  refine .get fun hr => ?_
  rw [hstop hr]
  refine .ite (fun _ => .pure rfl) fun _ => ?_
  exact (h hr).bind fun a a' _ _ ha => .pure (congrArg some ha)

theorem inScope (h : ∀ r r', step.Parallel f step' r r') (r r' : Reader) :
    (Parse.inScope step).Parallel f (Parse.inScope step') r r' := by
  intro hparallel
  let r₁ : Reader := { r with scopes := r.scopes.push }
  let r₁' : Reader := { r' with scopes := r'.scopes.push }
  have hopen : r₁.Parallel r₁' := hparallel.of_remaining rfl rfl hparallel.previous
    hparallel.problems hparallel.vars (congrArg Scopes.push hparallel.scopes)
  obtain ⟨hboth, houtcomes⟩ := h r₁ r₁' hopen
  have hrun (step : Parse α) (r : Reader) : Parse.inScope step r =
      ((step { r with scopes := r.scopes.push }).1,
        { (step { r with scopes := r.scopes.push }).2 with
          scopes := (step { r with scopes := r.scopes.push }).2.scopes.pop }) := rfl
  rw [hrun, hrun]
  have hinner := hboth.parallel
  exact ⟨⟨hinner.of_remaining rfl rfl hinner.previous hinner.problems hinner.vars
    (congrArg Scopes.pop hinner.scopes), hboth.left, hboth.right⟩, houtcomes⟩

/-- The recovery from a failed step goes on to the same place. -/
theorem recovering {recover recover' : Reader → Reader} (h : step.Parallel f step' r r')
    (hrecover : ∀ r₁ r₁', Reader.BothOnward r r' r₁ r₁' →
      Reader.BothOnward r r' (recover r₁) (recover' r₁')) :
    (Parse.recovering step recover).Parallel (Option.map f) (Parse.recovering step' recover')
      r r' := by
  intro hparallel
  obtain ⟨hboth, houtcomes⟩ := h hparallel
  unfold Parse.recovering
  rcases hstep : step r with ⟨result, r₁⟩
  rcases hstep' : step' r' with ⟨result', r₁'⟩
  rw [hstep, hstep'] at hboth houtcomes
  cases houtcomes with
  | ok ha => exact ⟨hboth, .ok (congrArg some ha)⟩
  | @error p p' hp =>
    refine ⟨hrecover _ _ ⟨hboth.parallel.of_remaining rfl rfl hboth.parallel.previous ?_
      hboth.parallel.vars hboth.parallel.scopes, hboth.left, hboth.right⟩, .ok rfl⟩
    simp only [Reader.addProblem, Failure.problemAt, List.map_append, List.map_cons, List.map_nil,
      hboth.parallel.problems, hp]

end Parallel

end Parse

end LoopNest
