import LoopNest.Proofs.Grammar.Consumes

/-!
# How reading goes on

A step of reading never goes back, whether it goes well or fails, and most steps that go well take
a token. The loops and the recursion of the grammar end because of this, and what their rounds are
counted by does not matter.

* `Reader.Onward`: what lies ahead at one reader and at a later one.
* `Parse.Agrees`: two steps do the same at a reader, they go on from there, and they take an item if
  the result says so. The two steps differ in the rounds that they are given.
* `Parse.Agrees.bind`, `Parse.Agrees.many`, `Parse.Agrees.recovering`: one rule for each way to
  build a step from others.
* `Parse.Repeats`: a repetition without a bound on its rounds; `Parse.many_repeats` shows that
  `Parse.many` is one.
-/

namespace LoopNest

/-! ## Readers -/

namespace Reader

/-- The reader `r'` is `r` or a later one. Where nothing was read the current token is still there,
and if all that lies ahead are tokens then nothing but tokens is passed over. -/
structure Onward (r r' : Reader) : Prop where
  closed : r'.Closed
  suffix : r'.items <:+ r.items
  current_eq : r'.items = r.items → r'.current = r.current
  remaining : (∀ f, .fault f ∉ r.items) → r'.remaining <:+ r.remaining

/-- The reader `r'` is a later one than `r`: an item was taken. -/
def Past (r r' : Reader) : Prop := r'.items.length < r.items.length

namespace Onward

variable {r r₁ r₂ : Reader}

theorem of_remaining (h : r.Closed) (heq : r₁.remaining = r.remaining) : r.Onward r₁ := by
  obtain ⟨hcurrent, hitems⟩ := List.cons.inj heq
  exact ⟨h.of_remaining heq, hitems ▸ List.suffix_rfl, fun _ => Item.token.inj hcurrent,
    fun _ => heq ▸ List.suffix_rfl⟩

theorem refl (h : r.Closed) : r.Onward r := of_remaining h rfl

theorem trans (h : r.Onward r₁) (h' : r₁.Onward r₂) : r.Onward r₂ := by
  refine ⟨h'.closed, h'.suffix.trans h.suffix, fun heq => ?_, fun hfaults => ?_⟩
  · have hmiddle : r₁.items = r.items := by
      apply h.suffix.eq_of_length_le
      rw [← heq]
      exact h'.suffix.length_le
    exact (h'.current_eq (heq.trans hmiddle.symm)).trans (h.current_eq hmiddle)
  · exact (h'.remaining fun f hf => hfaults f (h.suffix.subset hf)).trans (h.remaining hfaults)

theorem length_le (h : r.Onward r₁) : r₁.items.length ≤ r.items.length := h.suffix.length_le

/-- Either an item was taken, or the reader stands where it stood. -/
theorem past_or (h : r.Onward r₁) :
    r.Past r₁ ∨ (r₁.items = r.items ∧ r₁.current = r.current) := by
  by_cases hlt : r₁.items.length < r.items.length
  · exact .inl hlt
  · have heq := h.suffix.eq_of_length_le (Nat.le_of_not_lt hlt)
    exact .inr ⟨heq, h.current_eq heq⟩

theorem past (h : r.Onward r₁) (h' : r₁.Past r₂) : r.Past r₂ := Nat.lt_of_lt_of_le h' h.length_le

end Onward

theorem Past.onward {r r₁ r₂ : Reader} (h : r.Past r₁) (h' : r₁.Onward r₂) : r.Past r₂ :=
  Nat.lt_of_le_of_lt h'.length_le h

/-- In front of the end of the file there is an item to come. -/
theorem Closed.items_ne {r : Reader} (h : r.Closed) (hend : r.atEnd = false) : r.items ≠ [] := by
  intro hnil
  obtain ⟨items, t, hremaining, ht⟩ := h
  rw [remaining, hnil] at hremaining
  cases items with
  | nil =>
    obtain rfl : r.current = t := Item.token.inj (List.cons.inj hremaining).1
    exact Bool.eq_false_iff.mp hend (beq_iff_eq.mpr ht)
  | cons i items => simp at hremaining

theorem atEnd_eq_false {r : Reader} {k : Token.Kind} (h : r.current.kind = k)
    (hk : k ≠ .endOfFile) : r.atEnd = false := beq_eq_false_iff_ne.mpr (h ▸ hk)

/-- The items behind the first one still end with the end of the file. -/
theorem Closed.of_tail {r r' : Reader} (h : r.Closed) {i : Item} (hitems : r.items = i :: r'.items)
    (hne : r'.items ≠ []) : r'.Closed := by
  obtain ⟨items, t, hremaining, ht⟩ := h
  have hsuffix : r'.items <:+ items ++ [.token t] := by
    rw [← hremaining, remaining, hitems]
    exact (List.suffix_cons _ _).trans (List.suffix_cons _ _)
  rcases List.suffix_concat_iff.mp hsuffix with hnil | ⟨rest, hrest, -⟩
  · exact absurd hnil hne
  · exact ⟨.token r'.current :: rest, t, by rw [remaining, hrest]; rfl, ht⟩

/-- The last item is no fault. -/
theorem Closed.ne_fault {r : Reader} (h : r.Closed) {f : Fault} {items : List Item}
    (hitems : r.items = .fault f :: items) : items ≠ [] := by
  rintro rfl
  obtain ⟨front, t, hremaining, -⟩ := h
  rw [remaining, hitems] at hremaining
  cases front with
  | nil => cases hremaining
  | cons i front =>
    have hlast := (List.cons.inj hremaining).2
    cases front with
    | nil => cases hlast
    | cons j front => simp at hlast

/-- The step to the next token goes on, also at a fault. -/
theorem Closed.advance_onward {r : Reader} (h : r.Closed) : r.Onward r.advance.2 := by
  unfold Reader.advance
  split
  · exact .of_remaining h rfl
  · next t items hitems =>
    refine ⟨h.of_suffix ?_, ?_, fun heq => ?_, fun _ => ?_⟩
    · rw [remaining, remaining, hitems]
      exact List.suffix_cons _ _
    · rw [hitems]
      exact List.suffix_cons _ _
    · rw [hitems] at heq
      simp at heq
    · rw [remaining, remaining, hitems]
      exact List.suffix_cons _ _
  · next f items hitems =>
    refine ⟨h.of_tail hitems (h.ne_fault hitems), ?_, fun _ => rfl, fun hfaults => ?_⟩
    · rw [hitems]
      exact List.suffix_cons _ _
    · exact absurd (hitems ▸ List.mem_cons_self) (hfaults f)

theorem Closed.advance_past {r : Reader} (h : r.Closed) (hend : r.atEnd = false) :
    r.Past r.advance.2 := by
  have hne := h.items_ne hend
  unfold Past Reader.advance
  split
  · contradiction
  · next hitems => simp [hitems]
  · next hitems => simp [hitems]

/-- Passing over a token goes on, and in front of the end it takes an item. -/
theorem Closed.skip_onward {r : Reader} (h : r.Closed) : r.Onward r.skip := by
  have honward := h.advance_onward
  unfold skip
  split
  · next r' hadvance =>
    rw [hadvance] at honward
    exact honward
  · next f r' hadvance =>
    rw [hadvance] at honward
    have hitems : ∃ g, r.items = .fault g :: r'.items := by
      unfold Reader.advance at hadvance
      split at hadvance
      · cases hadvance
      · cases hadvance
      · next g items hitems =>
        obtain ⟨-, rfl⟩ := Prod.mk.inj hadvance
        exact ⟨g, hitems⟩
    obtain ⟨g, hitems⟩ := hitems
    refine ⟨?_, honward.suffix, fun heq => ?_, fun hfaults => ?_⟩
    · have hclosed : r'.stopHere.Closed := h.of_tail hitems (h.ne_fault hitems)
      exact hclosed
    · have heq : r'.items = r.items := heq
      rw [hitems] at heq
      simp at heq
    · exact absurd (hitems ▸ List.mem_cons_self) (hfaults g)

theorem Closed.skip_past {r : Reader} (h : r.Closed) (hend : r.atEnd = false) : r.Past r.skip := by
  have hpast := h.advance_past hend
  unfold skip
  split
  · next hadvance =>
    rw [hadvance] at hpast
    exact hpast
  · next hadvance =>
    rw [hadvance] at hpast
    exact hpast

/-- Passing over tokens without a bound on the rounds: one after the other, as long as the end and
the place to stop are not there. Each of them takes an item. -/
inductive Skips (stop : Reader → Bool) : Reader → Reader → Prop
  | done {r : Reader} (h : r.atEnd = true ∨ stop r = true) : Skips stop r r
  | skip {r r' : Reader} (hend : r.atEnd = false) (hstop : stop r = false)
      (hpast : r.Past r.skip) (hrest : Skips stop r.skip r') : Skips stop r r'

/-- The rounds that are counted suffice. -/
theorem Closed.skipUntil_skips {r : Reader} (h : r.Closed) (stop : Reader → Bool) :
    Skips stop r (r.skipUntil stop) := by
  have hrounds (rounds : List Item) (r : Reader) (h : r.Closed)
      (hle : r.items.length < rounds.length) : Skips stop r (skipFor stop rounds r) := by
    induction rounds generalizing r with
    | nil => exact absurd hle (Nat.not_lt_zero _)
    | cons i rounds ih =>
      rw [skipFor]
      by_cases hdone : (r.atEnd || stop r) = true
      · rw [if_pos hdone]
        exact .done (Bool.or_eq_true_iff.mp hdone)
      · rw [if_neg hdone]
        obtain ⟨hend, hstop⟩ := Bool.or_eq_false_iff.mp (Bool.eq_false_iff.mpr hdone)
        have hpast := h.skip_past hend
        refine .skip hend hstop hpast (ih _ h.skip_onward.closed ?_)
        exact Nat.lt_of_lt_of_le hpast (Nat.le_of_lt_succ hle)
  exact hrounds r.remaining r h (Nat.lt_succ_self _)

theorem Skips.onward {stop : Reader → Bool} {r r' : Reader} (h : Skips stop r r')
    (hclosed : r.Closed) : r.Onward r' := by
  induction h with
  | done => exact .refl hclosed
  | skip _ _ _ _ ih => exact hclosed.skip_onward.trans (ih hclosed.skip_onward.closed)

theorem Closed.skipUntil_onward {r : Reader} (h : r.Closed) (stop : Reader → Bool) :
    r.Onward (r.skipUntil stop) := (h.skipUntil_skips stop).onward h

end Reader

/-! ## Steps -/

namespace Parse

variable {α β : Type}

theorem get_bind_apply (next : Reader → Parse α) (r : Reader) :
    (MonadStateOf.get >>= next) r = next r r := rfl

/-- At the reader `r` the steps do the same and go on from there. If they go well with a result
that satisfies `P` then they take an item. -/
def Agrees (step step' : Parse α) (r : Reader) (P : α → Prop) : Prop :=
  r.Closed → step' r = step r ∧ r.Onward (step r).2 ∧
    ∀ a, (step r).1 = .ok a → P a → r.Past (step r).2

/-- The two steps do the same at `r`, and if they go well then they take an item. -/
abbrev Takes (step step' : Parse α) (r : Reader) : Prop := step.Agrees step' r fun _ => True

/-- The two steps do the same at `r`, and they may leave everything as it is. -/
abbrev Stays (step step' : Parse α) (r : Reader) : Prop := step.Agrees step' r fun _ => False

namespace Agrees

variable {r : Reader} {step step' : Parse α} {P P' : α → Prop}

theorem mono (h : step.Agrees step' r P) (himp : ∀ a, P' a → P a) : step.Agrees step' r P' := by
  intro hclosed
  obtain ⟨heq, honward, hpast⟩ := h hclosed
  exact ⟨heq, honward, fun a ha hp => hpast a ha (himp a hp)⟩

theorem stays (h : step.Agrees step' r P) : step.Stays step' r := h.mono fun _ => False.elim

/-- Only what the steps do at `r` matters. -/
theorem congr {step'' : Parse α} (h : step.Agrees step' r P) (heq : step'' r = step' r) :
    step.Agrees step'' r P :=
  fun hclosed => ⟨heq.trans (h hclosed).1, (h hclosed).2⟩

/-- Steps that keep what lies ahead. -/
theorem keep (heq : step' r = step r) (hremaining : (step r).2.remaining = r.remaining) :
    step.Stays step' r :=
  fun hclosed => ⟨heq, .of_remaining hclosed hremaining, fun _ _ => False.elim⟩

theorem pure (a : α) (h : ¬ P a) : Agrees (Pure.pure a) (Pure.pure a) r P := by
  intro hclosed
  refine ⟨rfl, .refl hclosed, fun b hb hp => ?_⟩
  obtain rfl : a = b := Except.ok.inj hb
  exact absurd hp h

theorem fail (cause : Problem.Cause) : Agrees (Parse.fail cause) (Parse.fail cause) r P :=
  fun hclosed => ⟨rfl, .refl hclosed, fun _ ha => by cases ha⟩

/-- What the first step takes is taken. Where it takes nothing the second one has to. -/
theorem bind {next next' : α → Parse β} {Q : β → Prop} (h : step.Agrees step' r P)
    (hnext : ∀ a r₁, r.Onward r₁ → (P a → r.Past r₁) →
      (next a).Agrees (next' a) r₁ fun b => Q b ∧ ¬ P a) :
    (step >>= next).Agrees (step' >>= next') r Q := by
  intro hclosed
  obtain ⟨heq, honward, hpast⟩ := h hclosed
  rw [bind_apply, bind_apply, heq]
  rcases hstep : step r with ⟨result, r₁⟩
  rw [hstep] at honward hpast
  cases result with
  | error failure => exact ⟨rfl, honward, fun b hb => by cases hb⟩
  | ok a =>
    dsimp only at honward hpast ⊢
    obtain ⟨heq', honward', hpast'⟩ := hnext a r₁ honward (hpast a rfl) honward.closed
    refine ⟨heq', honward.trans honward', fun b hb hq => ?_⟩
    by_cases hp : P a
    · exact (hpast a rfl hp).onward honward'
    · exact honward.past (hpast' b hb ⟨hq, hp⟩)

/-- The first step takes an item, and the second one may do so. -/
theorem bind_takes {next next' : α → Parse β} {Q : β → Prop} (h : step.Takes step' r)
    (hnext : ∀ a r₁, r.Onward r₁ → r.Past r₁ → (next a).Stays (next' a) r₁) :
    (step >>= next).Agrees (step' >>= next') r Q :=
  h.bind fun a r₁ honward hpast =>
    (hnext a r₁ honward (hpast trivial)).mono fun _ hb => hb.2 trivial

/-- The first step may leave everything as it is. -/
theorem bind_stays {next next' : α → Parse β} {Q : β → Prop} (h : step.Stays step' r)
    (hnext : ∀ a r₁, r.Onward r₁ → (next a).Agrees (next' a) r₁ Q) :
    (step >>= next).Agrees (step' >>= next') r Q :=
  h.bind fun a r₁ honward _ => (hnext a r₁ honward).mono fun _ hb => hb.1

/-- A step that looks at the reader first. -/
theorem get {next next' : Reader → Parse α} (h : (next r).Agrees (next' r) r P) :
    (MonadStateOf.get >>= next).Agrees (MonadStateOf.get >>= next') r P := h

/-! ## Tokens -/

theorem advance {P : Unit → Prop} (hend : r.atEnd = false) :
    Parse.advance.Agrees Parse.advance r P := by
  intro hclosed
  rw [advance_apply]
  exact ⟨rfl, hclosed.advance_onward, fun _ _ _ => hclosed.advance_past hend⟩

theorem acceptKind {k : Token.Kind} (hk : k ≠ .endOfFile) (r : Reader) :
    (Parse.acceptKind k).Agrees (Parse.acceptKind k) r fun accepted => accepted = true := by
  refine .get ?_
  split
  · next hsees =>
    refine Agrees.bind_takes (advance (Reader.atEnd_eq_false (eq_of_beq hsees) hk)) ?_
    exact fun _ r₁ _ _ => .pure true id
  · exact .pure false Bool.false_ne_true

theorem accept (s : Symbol) (r : Reader) :
    (Parse.accept s).Agrees (Parse.accept s) r fun accepted => accepted = true :=
  acceptKind (by simp) r

theorem expect (s : Symbol) (place : Place) (r : Reader) :
    (Parse.expect s place).Takes (Parse.expect s place) r := by
  refine .get ?_
  split
  · next hsees => exact advance (Reader.atEnd_eq_false (eq_of_beq hsees) (by simp))
  · exact .fail _

theorem name (named : Named) (r : Reader) : (Parse.name named).Takes (Parse.name named) r := by
  refine .get ?_
  split
  · next hsees =>
    refine Agrees.bind_takes (advance (Reader.atEnd_eq_false (eq_of_beq hsees) (by simp))) ?_
    exact fun _ _ _ _ => .pure _ id
  · exact .fail _

theorem declare (n : String) (type : VarType) (span : Span) (r : Reader) :
    (Parse.declare n type span).Stays (Parse.declare n type span) r := by
  refine .keep rfl ?_
  change Reader.remaining (if _ then Reader.addProblem _ _ else _) = _
  split <;> rfl

theorem resolve (n : String) (span : Span) (r : Reader) :
    (Parse.resolve n span).Stays (Parse.resolve n span) r := .keep rfl rfl

/-! ## Repetition -/

/-- A repeated step, each round of which takes an item. -/
theorem many {item item' : Parse (Option α)} {n : Nat}
    (h : ∀ r, r.items.length ≤ n → item.Agrees item' r fun o => o.isSome = true)
    (hr : r.items.length ≤ n) : (Parse.many item).Stays (Parse.many item') r := by
  have hrounds (rounds : List Item) (r : Reader) (hr : r.items.length ≤ n) :
      (manyFor item rounds).Stays (manyFor item' rounds) r := by
    induction rounds generalizing r with
    | nil => exact .pure _ id
    | cons _ rounds ih =>
      refine Agrees.bind_stays (h r hr).stays fun o r₁ honward => ?_
      have hr₁ := Nat.le_trans honward.length_le hr
      cases o with
      | none => exact .pure _ id
      | some a => exact .bind_stays (ih r₁ hr₁) fun as _ _ => .pure _ id
  exact .get (hrounds r.remaining r hr)

theorem separated {item item' : Parse α} {n : Nat}
    (h : ∀ r, r.items.length ≤ n → item.Takes item' r) (hr : r.items.length ≤ n) :
    (Parse.separated item).Agrees (Parse.separated item') r fun o => o.isSome = true := by
  refine (accept .comma r).bind fun accepted r₁ honward _ => ?_
  cases accepted with
  | false => exact .pure none (by simp)
  | true =>
    have hr₁ := Nat.le_trans honward.length_le hr
    exact .bind_stays (h r₁ hr₁).stays fun _ _ _ => .pure _ (by simp)

theorem itemUnless {stop : Reader → Bool} {item item' : Reader → Parse α}
    (h : stop r = false → (item r).Takes (item' r) r) :
    (Parse.itemUnless stop item).Agrees (Parse.itemUnless stop item') r fun o => o.isSome = true := by
  refine .get ?_
  split
  · exact .pure none (by simp)
  · next hgo => exact .bind_takes (h (Bool.eq_false_iff.mpr hgo)) fun _ _ _ _ => .pure _ id

/-- One or more items with commas between them. -/
theorem commaSeparated {item item' : Parse α} {n : Nat}
    (h : ∀ r, r.items.length ≤ n → item.Takes item' r) (hr : r.items.length ≤ n) :
    (Parse.commaSeparated item).Takes (Parse.commaSeparated item') r := by
  rw [commaSeparated_eq, commaSeparated_eq]
  refine .bind_takes (h r hr) fun a r₁ honward _ => ?_
  exact .bind_stays (many (n := n) (fun r hr => separated h hr) (Nat.le_trans honward.length_le hr))
    fun as _ _ => .pure _ id

/-! ## Scopes and recovery -/

theorem inScope (h : ∀ r₁ : Reader, r₁.remaining = r.remaining → step.Agrees step' r₁ P) :
    (Parse.inScope step).Agrees (Parse.inScope step') r P := by
  intro hclosed
  let r₁ : Reader := { r with scopes := r.scopes.push }
  have hopen : r.Onward r₁ := .of_remaining hclosed rfl
  obtain ⟨heq, honward, hpast⟩ := h r₁ rfl hopen.closed
  have hrun (step : Parse α) : Parse.inScope step r =
      ((step r₁).1, { (step r₁).2 with scopes := (step r₁).2.scopes.pop }) := rfl
  rw [hrun, hrun, heq]
  exact ⟨rfl, hopen.trans (honward.trans (.of_remaining honward.closed rfl)), hpast⟩

/-- A step that takes an item or fails, after which `recover` takes one. -/
theorem recovering {Q : Option α → Prop} (h : step.Takes step' r) {recover : Reader → Reader}
    (hrecover : ∀ r₁, r.Onward r₁ → r.Onward (recover r₁) ∧ r.Past (recover r₁)) :
    (Parse.recovering step recover).Agrees (Parse.recovering step' recover) r Q := by
  intro hclosed
  obtain ⟨heq, honward, hpast⟩ := h hclosed
  unfold Parse.recovering
  rw [heq]
  rcases hstep : step r with ⟨result, r₁⟩
  rw [hstep] at honward hpast
  cases result with
  | error failure =>
    obtain ⟨honward', hpast'⟩ := hrecover (r₁.addProblem (failure.problemAt r₁))
      (honward.trans (.of_remaining honward.closed rfl))
    exact ⟨rfl, honward', fun _ _ _ => hpast'⟩
  | ok a => exact ⟨rfl, honward, fun _ _ _ => hpast a rfl trivial⟩

end Agrees

/-! ## Repetition without a bound -/

/-- A step that is repeated until it yields nothing or fails, without a bound on the rounds. Every
round that yields something takes an item. -/
inductive Repeats (item : Parse (Option α)) : Reader → Except Failure (List α) → Reader → Prop
  | stop {r r' : Reader} (h : item r = (.ok none, r')) : Repeats item r (.ok []) r'
  | fail {r r' : Reader} {failure : Failure} (h : item r = (.error failure, r')) :
      Repeats item r (.error failure) r'
  | round {r r₁ r' : Reader} {a : α} {result : Except Failure (List α)}
      (h : item r = (.ok (some a), r₁)) (honward : r.Onward r₁) (hpast : r.Past r₁)
      (hrest : Repeats item r₁ result r') : Repeats item r (result.map (a :: ·)) r'

/-- The rounds that are counted suffice. -/
theorem many_repeats {item : Parse (Option α)}
    (h : ∀ r, item.Agrees item r fun o => o.isSome = true) {r : Reader} (hclosed : r.Closed) :
    Repeats item r (Parse.many item r).1 (Parse.many item r).2 := by
  have hrounds (rounds : List Item) (r : Reader) (hclosed : r.Closed)
      (hlt : r.items.length < rounds.length) :
      Repeats item r (manyFor item rounds r).1 (manyFor item rounds r).2 := by
    induction rounds generalizing r with
    | nil => exact absurd hlt (Nat.not_lt_zero _)
    | cons _ rounds ih =>
      obtain ⟨-, honward, hpast⟩ := h r hclosed
      rw [manyFor, bind_apply]
      rcases hitem : item r with ⟨result, r₁⟩
      rw [hitem] at honward hpast
      cases result with
      | error failure => exact .fail hitem
      | ok o =>
        cases o with
        | none => exact .stop hitem
        | some a =>
          have hpast : r.Past r₁ := hpast _ rfl rfl
          have hrest := ih r₁ honward.closed (Nat.lt_of_lt_of_le hpast (Nat.le_of_lt_succ hlt))
          dsimp only
          rw [bind_apply]
          have hround := Repeats.round hitem honward hpast hrest
          rcases hmany : manyFor item rounds r₁ with ⟨result, r₂⟩
          rw [hmany] at hround
          cases result <;> exact hround
  exact hrounds r.remaining r hclosed (Nat.lt_succ_self _)

end Parse

end LoopNest
