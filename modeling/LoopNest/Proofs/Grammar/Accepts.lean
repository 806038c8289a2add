import LoopNest.Proofs.Grammar.Ensures
import LoopNest.Proofs.Token.Spelling

/-!
# What the grammar accepts

The converse of what a run without problems ensures: where the right words lie ahead, a step of
reading goes well and notes no problem.

* `Reader.Sees`: the words that lie ahead of a reader.
* `Parse.Accepts`: a step at a reader goes well, with a property of its result.
* `Parse.Accepts.bind`, `Parse.Accepts.many`, `Parse.Accepts.inScope`: one rule for each way to
  build a step from others.
-/

namespace LoopNest

namespace Reader

/-- These words lie ahead, the one of the current token first. -/
def Sees (r : Reader) (ws : List Word) : Prop :=
  ∃ ts : List Token, r.remaining = ts.map .token ∧ ts.map Token.word = ws

/-- Nothing went wrong so far. -/
structure Ready (r : Reader) : Prop where
  problems : r.problems = []
  sound : r.Sound r.remaining

variable {r r' : Reader} {w : Word} {ws : List Word}

namespace Sees

theorem word_current (h : r.Sees (w :: ws)) : r.current.word = w := by
  obtain ⟨ts, hremaining, hwords⟩ := h
  cases ts with
  | nil => cases hwords
  | cons t ts =>
    obtain ⟨ht, -⟩ := List.cons.inj hremaining
    rw [List.map_cons] at hwords
    rw [← (List.cons.inj hwords).1, ← Item.token.inj ht]

theorem kind_current (h : r.Sees (w :: ws)) : r.current.kind = w.kind :=
  congrArg Word.kind h.word_current

theorem sees_iff (h : r.Sees (w :: ws)) (k : Token.Kind) : r.sees k = true ↔ w.kind = k := by
  rw [Reader.sees, beq_iff_eq, h.kind_current]

theorem seesSymbol_iff (h : r.Sees (w :: ws)) (s : Symbol) :
    r.seesSymbol s = true ↔ w.kind = .symbol s := h.sees_iff (.symbol s)

theorem length_remaining (h : r.Sees ws) : r.remaining.length = ws.length := by
  obtain ⟨ts, hremaining, hwords⟩ := h
  rw [hremaining, ← hwords, List.length_map, List.length_map]

theorem of_remaining (h : r.Sees ws) (heq : r'.remaining = r.remaining) : r'.Sees ws := by
  obtain ⟨ts, hremaining, hwords⟩ := h
  exact ⟨ts, heq.trans hremaining, hwords⟩

/-- Behind the current token lie the other words. -/
theorem advance (h : r.Sees (w :: ws)) (hne : ws ≠ []) :
    r.advance.1 = .ok () ∧ r.advance.2.Sees ws := by
  obtain ⟨w', ws, rfl⟩ := List.exists_cons_of_ne_nil hne
  obtain ⟨ts, hremaining, hwords⟩ := h
  match ts, hwords with
  | t :: t' :: ts, hwords =>
    have hitems : r.items = .token t' :: ts.map .token := (List.cons.inj hremaining).2
    refine ⟨?_, t' :: ts, ?_, (List.cons.inj hwords).2⟩
    · simp only [Reader.advance, hitems]
    · simp only [Reader.advance, hitems, remaining, List.map_cons]

end Sees

end Reader

/-- A comma, or the word behind the last of some items. -/
def Word.EndsItem (last w : Word) : Prop := w = .symbol .comma ∨ w = last

namespace Parse

variable {α β : Type}

/-- If nothing went wrong before then the step goes well, no problem is noted, and the result and
the reader behind the step satisfy `Q`. -/
def Accepts (step : Parse α) (r : Reader) (Q : α → Reader → Prop) : Prop :=
  r.Ready → ∃ a, (step r).1 = .ok a ∧ (step r).2.Ready ∧ r.Leads (step r).2 ∧ Q a (step r).2

namespace Accepts

variable {r : Reader} {step : Parse α} {Q Q' : α → Reader → Prop} {w : Word} {ws : List Word}

/-- A run that notes no problem ensures what every such run ensures. -/
theorem of_run {a : α} {r' : Reader} (hrun : step r = (.ok a, r'))
    (hproblems : r'.problems = r.problems) (h : step.Ensures r.remaining r Q) :
    step.Accepts r fun b r'' => r'' = r' ∧ Q b r'' := by
  intro hready
  unfold Ensures at h
  rw [hrun] at h ⊢
  have hclean : r'.problems = [] := hproblems.trans hready.problems
  obtain ⟨hsound, hleads, hq⟩ := (h hclean).2 hready.sound a rfl
  exact ⟨a, rfl, ⟨hclean, hsound.here⟩, hleads, rfl, hq⟩

theorem mono (h : step.Accepts r Q) (himp : ∀ a r', Q a r' → Q' a r') : step.Accepts r Q' := by
  intro hready
  obtain ⟨a, hok, hready', hleads, hq⟩ := h hready
  exact ⟨a, hok, hready', hleads, himp a _ hq⟩

/-- What is ensured in any case holds as well. -/
theorem ensures (h : step.Accepts r Q) (h' : step.Ensures r.remaining r Q') :
    step.Accepts r fun a r' => Q a r' ∧ Q' a r' := by
  intro hready
  obtain ⟨a, hok, hready', hleads, hq⟩ := h hready
  exact ⟨a, hok, hready', hleads, hq, ((h' hready'.problems).2 hready.sound a hok).2.2⟩

/-- The reader may be taken to be sound. -/
theorem of_ready (h : r.Ready → step.Accepts r Q) : step.Accepts r Q :=
  fun hready => h hready hready

theorem pure {a : α} (h : Q a r) : Accepts (Pure.pure a) r Q :=
  fun hready => ⟨a, rfl, hready, .refl r, h⟩

theorem bind {next : α → Parse β} {R : β → Reader → Prop} (h : step.Accepts r Q)
    (hnext : ∀ a r₁, Q a r₁ → (next a).Accepts r₁ R) : (step >>= next).Accepts r R := by
  intro hready
  obtain ⟨a, hok, hready₁, hleads₁, hq⟩ := h hready
  obtain ⟨b, hok₂, hready₂, hleads₂, hr⟩ := hnext a _ hq hready₁
  have hrun : (step >>= next) r = next a (step r).2 := by
    rw [bind_apply]
    rcases hstep : step r with ⟨result, r₁⟩
    rw [hstep] at hok
    obtain rfl : result = .ok a := hok
    rfl
  rw [hrun]
  exact ⟨b, hok₂, hready₂, hleads₁.trans hleads₂, hr⟩

theorem get {next : Reader → Parse α} (h : (next r).Accepts r Q) :
    (MonadStateOf.get >>= next).Accepts r Q := h

/-! ## Tokens -/

theorem advance (h : r.Sees (w :: ws)) (hne : ws ≠ []) :
    Parse.advance.Accepts r fun _ r' => r'.Sees ws ∧ r'.context = r.context := by
  obtain ⟨hok, hsees⟩ := h.advance hne
  have hrun : Parse.advance r = (.ok (), r.advance.2) := by
    rw [advance_apply, hok]
    rfl
  refine (of_run hrun (Reader.problems_advance r) (Ensures.advance r)).mono ?_
  rintro _ _ ⟨rfl, _, hcontext⟩
  exact ⟨hsees, hcontext⟩

theorem acceptKind (h : r.Sees (w :: ws)) (hne : ws ≠ []) :
    (Parse.acceptKind w.kind).Accepts r fun b r' =>
      b = true ∧ r'.Sees ws ∧ r'.context = r.context := by
  refine .get ?_
  rw [if_pos ((h.sees_iff _).mpr rfl)]
  exact (advance h hne).bind fun _ _ hr => .pure ⟨rfl, hr⟩

theorem acceptKind_other {k : Token.Kind} (h : r.Sees (w :: ws)) (hk : w.kind ≠ k) :
    (Parse.acceptKind k).Accepts r fun b r' => b = false ∧ r' = r := by
  refine .get ?_
  rw [if_neg (mt (h.sees_iff k).mp hk)]
  exact .pure ⟨rfl, rfl⟩

theorem expect {s : Symbol} (place : Place) (h : r.Sees (.symbol s :: ws))
    (hne : ws ≠ []) :
    (Parse.expect s place).Accepts r fun _ r' => r'.Sees ws ∧ r'.context = r.context := by
  refine .get ?_
  rw [if_pos ((h.seesSymbol_iff s).mpr rfl)]
  exact advance h hne

theorem name {n : String} (named : Named) (h : r.Sees (.name n :: ws))
    (hne : ws ≠ []) :
    (Parse.name named).Accepts r fun m r' =>
      m = n ∧ r'.Sees ws ∧ r'.context = r.context := by
  refine .get ?_
  rw [if_pos ((h.sees_iff .identifier).mpr rfl)]
  exact (advance h hne).bind fun _ _ hr => .pure ⟨congrArg Word.lexeme h.word_current, hr⟩

/-! ## Names -/

theorem declare {n : String} (type : VarType) (span : Span) (h : r.Sees ws)
    (hfree : (r.context.frames.headD []).lookup n = none) :
    (Parse.declare n type span).Accepts r fun v r' =>
      v.name = n ∧ r'.Sees ws ∧ r.context.Declares v type r'.context := by
  refine .of_ready fun hready => ?_
  have hnew : (r.scopes.declare r.vars n type span).1.2 = false := by
    have hfind := Scopes.find?_current hready.sound.scopes n
    rw [Scopes.declare]
    simp only [hfind]
    simpa [Reader.context] using hfree
  have hrun : Parse.declare n type span r =
      (.ok (r.scopes.declare r.vars n type span).1.1,
        { r with
          vars := (r.scopes.declare r.vars n type span).2.1
          scopes := (r.scopes.declare r.vars n type span).2.2 }) := by
    change (Except.ok (r.scopes.declare r.vars n type span).1.1,
        let r' := { r with
          vars := (r.scopes.declare r.vars n type span).2.1
          scopes := (r.scopes.declare r.vars n type span).2.2 }
        if (r.scopes.declare r.vars n type span).1.2 then
          r'.addProblem ⟨.redefinition n, span, none⟩
        else r') = _
    rw [hnew]
    rfl
  refine (of_run hrun rfl (Ensures.declare n type span r)).mono ?_
  rintro v _ ⟨rfl, hname, hdeclares, _⟩
  exact ⟨hname, h.of_remaining rfl, hdeclares⟩

/-- A step in a scope of its own. -/
theorem inScope (h : ∀ r₁, r₁.remaining = r.remaining → r₁.context = r.context.push →
    step.Accepts r₁ Q) :
    (Parse.inScope step).Accepts r fun a r' => ∃ r₂, Q a r₂ ∧
      r'.context = r₂.context.pop ∧ r'.remaining = r₂.remaining := by
  intro hready
  let r₁ : Reader := { r with scopes := r.scopes.push }
  have hrun : Parse.inScope step r =
      ((step r₁).1, { (step r₁).2 with scopes := (step r₁).2.scopes.pop }) := rfl
  have hcontext : r₁.context = r.context.push := by
    unfold Reader.context Context.push
    rw [Scopes.frames_push hready.sound.scopes]
  have hsound₁ : r₁.Sound r₁.remaining := hready.sound.of_context hready.sound.scopes.push
    (hcontext ▸ hready.sound.context.push) rfl rfl
  obtain ⟨a, hok, hready₂, hleads, hq⟩ := h r₁ rfl hcontext ⟨hready.problems, hsound₁⟩
  rw [hrun]
  generalize (step r₁).2 = r₂ at *
  have hframes := hleads.scopes.frames_pop hready₂.sound.scopes
  have hpop : ({ r₂ with scopes := r₂.scopes.pop } : Reader).context = r₂.context.pop := by
    unfold Reader.context Context.pop
    rw [hframes]
  have hne : r₂.context.frames.tail ≠ [] := by
    obtain ⟨f, fs, hcons⟩ := Scopes.frames_eq_cons hready₂.sound.scopes.pop
    change r₂.scopes.frames.tail ≠ []
    rw [← hframes, hcons]
    exact List.cons_ne_nil _ _
  refine ⟨a, hok, ⟨hready₂.problems, ?_⟩, ⟨hleads.scopes.pop, hleads.vars, hleads.previous_le,
    hleads.current_le⟩, r₂, hq, hpop, rfl⟩
  exact hready₂.sound.of_context hready₂.sound.scopes.pop
    (hpop ▸ hready₂.sound.context.pop hne) rfl rfl

/-- A step that goes well needs no recovery. -/
theorem recovering (h : step.Accepts r Q) (recover : Reader → Reader) :
    (Parse.recovering step recover).Accepts r fun o r' => ∃ a, o = some a ∧ Q a r' := by
  intro hready
  obtain ⟨a, hok, hready', hleads, hq⟩ := h hready
  have hrun : Parse.recovering step recover r = (.ok (some a), (step r).2) := by
    unfold Parse.recovering
    rcases hstep : step r with ⟨result, r₁⟩
    rw [hstep] at hok
    obtain rfl : result = .ok a := hok
    rfl
  rw [hrun]
  exact ⟨some a, rfl, hready', hleads, a, rfl, hq⟩

/-! ## Repetition -/

section

variable {σ β : Type} {words : β → List Word} {B : Word → Prop}
  {I : σ → List β → Context → Prop} {R : σ → List β → List α → Context → Prop}

/-- What lies ahead of a repeated step: the words of all items, and behind them `w`. -/
theorem exists_ahead {bs : List β} (ws : List Word) (hw : B w)
    (hstart : ∀ b ∈ bs, ∃ w' ws', words b = w' :: ws' ∧ B w') :
    ∃ w' ws', bs.flatMap words ++ w :: ws = w' :: ws' ∧ B w' := by
  cases bs with
  | nil => exact ⟨w, ws, rfl, hw⟩
  | cons b bs =>
    obtain ⟨w', ws', hwords, hw'⟩ := hstart b List.mem_cons_self
    exact ⟨w', ws' ++ (bs.flatMap words ++ w :: ws), by simp [hwords], hw'⟩

/-- A repeated step yields one result for each item whose words lie ahead. A state goes with the
names from one item to the next. -/
theorem many_ahead {item : Parse (Option α)}
    (hitem : ∀ s b bs r, I s (b :: bs) r.context →
      r.Sees (words b ++ (bs.flatMap words ++ w :: ws)) →
      item.Accepts r fun o r' => ∃ a s', o = some a ∧ r'.Sees (bs.flatMap words ++ w :: ws) ∧
        I s' bs r'.context ∧ ∀ as c, R s' bs as c → R s (b :: bs) (a :: as) c)
    (hstop : ∀ s r, I s [] r.context → r.Sees (w :: ws) →
      item.Accepts r fun o r' => o = none ∧ r'.Sees (w :: ws) ∧ R s [] [] r'.context)
    {s : σ} {bs : List β} (hne : ∀ b ∈ bs, words b ≠ []) (h : I s bs r.context)
    (hsees : r.Sees (bs.flatMap words ++ w :: ws)) :
    (Parse.many item).Accepts r fun as r' => R s bs as r'.context ∧ r'.Sees (w :: ws) := by
  have hrounds {s : σ} {bs : List β} {r : Reader} (rounds : List Item) (h : I s bs r.context)
      (hsees : r.Sees (bs.flatMap words ++ w :: ws)) (hlength : bs.length < rounds.length) :
      (manyFor item rounds).Accepts r fun as r' =>
        R s bs as r'.context ∧ r'.Sees (w :: ws) := by
    induction rounds generalizing s bs r with
    | nil => exact absurd hlength (Nat.not_lt_zero _)
    | cons _ rounds ih =>
      cases bs with
      | nil =>
        refine (hstop s r h hsees).bind fun o r' hr => ?_
        obtain ⟨rfl, hsees', hr⟩ := hr
        exact .pure ⟨hr, hsees'⟩
      | cons b bs =>
        rw [List.flatMap_cons, List.append_assoc] at hsees
        refine (hitem s b bs r h hsees).bind fun o r' hr => ?_
        obtain ⟨a, s', rfl, hsees', hi, hrest⟩ := hr
        have hlength : bs.length < rounds.length := Nat.lt_of_succ_lt_succ hlength
        exact (ih hi hsees' hlength).bind fun as r'' has => .pure ⟨hrest as _ has.1, has.2⟩
  refine .get (hrounds r.remaining h hsees ?_)
  have hle : bs.length ≤ (bs.flatMap words).length := by
    clear h hsees
    induction bs with
    | nil => exact Nat.le_refl _
    | cons b bs ih =>
      obtain ⟨hb, hne⟩ := List.forall_mem_cons.mp hne
      have hpos := List.length_pos_iff.mpr hb
      have := ih hne
      simp only [List.flatMap_cons, List.length_append, List.length_cons]
      omega
  rw [hsees.length_remaining, List.length_append, List.length_cons]
  omega

/-- The same where an item asks of the word behind it that `B` holds. -/
theorem many {item : Parse (Option α)}
    (hitem : ∀ s b bs r w' ws', I s (b :: bs) r.context → B w' → r.Sees (words b ++ w' :: ws') →
      item.Accepts r fun o r' => ∃ a s', o = some a ∧ r'.Sees (w' :: ws') ∧ I s' bs r'.context ∧
        ∀ as c, R s' bs as c → R s (b :: bs) (a :: as) c)
    (hstop : ∀ s r, I s [] r.context → r.Sees (w :: ws) →
      item.Accepts r fun o r' => o = none ∧ r'.Sees (w :: ws) ∧ R s [] [] r'.context)
    (hw : B w) {s : σ} {bs : List β}
    (hstart : ∀ b ∈ bs, ∃ w' ws', words b = w' :: ws' ∧ B w')
    (h : I s bs r.context) (hsees : r.Sees (bs.flatMap words ++ w :: ws)) :
    (Parse.many item).Accepts r fun as r' => R s bs as r'.context ∧ r'.Sees (w :: ws) := by
  refine (many_ahead
    (I := fun s bs c => I s bs c ∧ ∀ b ∈ bs, ∃ w' ws', words b = w' :: ws' ∧ B w')
    ?_ (fun s r hi hsees => hstop s r hi.1 hsees) (fun b hb => ?_) ⟨h, hstart⟩ hsees)
  · intro s b bs r hi hsees
    obtain ⟨hi, hstart⟩ := hi
    obtain ⟨_, hstart⟩ := List.forall_mem_cons.mp hstart
    obtain ⟨w', ws', hahead, hw'⟩ := exists_ahead ws hw hstart
    rw [hahead] at hsees ⊢
    refine (hitem s b bs r w' ws' hi hw' hsees).mono fun o r' ho => ?_
    obtain ⟨a, s', ho, hsees', hi', hrest⟩ := ho
    exact ⟨a, s', ho, hsees', ⟨hi', hstart⟩, hrest⟩
  · obtain ⟨w', ws', hwords, _⟩ := hstart b hb
    rw [hwords]
    exact List.cons_ne_nil _ _

/-- A repeated step that yields nothing at once. -/
theorem many_nil {item : Parse (Option α)}
    (h : item.Accepts r fun o r' => o = none ∧ r' = r) :
    (Parse.many item).Accepts r fun as r' => as = [] ∧ r' = r := by
  refine .get (h.bind fun o r' ho => ?_)
  obtain ⟨rfl, rfl⟩ := ho
  exact .pure ⟨rfl, rfl⟩

/-- Without the symbol that each item starts with there is none. -/
theorem many_other {s : Symbol} {rest : Parse (Option α)} (hw : w.kind ≠ .symbol s)
    (hsees : r.Sees (w :: ws)) :
    (Parse.many (do if ← accept s then rest else Pure.pure none)).Accepts r fun as r' =>
      as = [] ∧ r' = r := by
  refine many_nil ((acceptKind_other hsees hw).bind fun accepted r₁ h₁ => ?_)
  obtain ⟨rfl, rfl⟩ := h₁
  exact .pure ⟨rfl, rfl⟩

/-- In front of an item with its comma lies one that ends the item before. -/
theorem exists_comma (last : Word) (bs : List β) : ∀ b ∈ bs, ∃ w ws,
    Word.symbol .comma :: words b = w :: ws ∧ Word.EndsItem last w :=
  fun _ _ => ⟨_, _, rfl, .inl rfl⟩

variable {item : Parse α}
  (hitem : ∀ s b bs r w' ws', I s (b :: bs) r.context → w.EndsItem w' →
    r.Sees (words b ++ w' :: ws') → item.Accepts r fun a r' => ∃ s', r'.Sees (w' :: ws') ∧
      I s' bs r'.context ∧ ∀ as c, R s' bs as c → R s (b :: bs) (a :: as) c)
  (hnil : ∀ s c, I s [] c → R s [] [] c) (hw : w.kind ≠ .symbol .comma)
include hitem hnil hw

/-- Items with a comma in front of each. -/
theorem behindCommas {s : σ} {bs : List β} (h : I s bs r.context)
    (hsees : r.Sees (bs.flatMap (fun b => .symbol .comma :: words b) ++ w :: ws)) :
    (Parse.many (Parse.separated item)).Accepts r fun as r' =>
      R s bs as r'.context ∧ r'.Sees (w :: ws) := by
  refine many (B := Word.EndsItem w) ?_ ?_ (.inr rfl) (exists_comma w bs) h hsees
  · intro s b bs r w' ws' hi hw' hsees
    refine (acceptKind hsees (by simp)).bind fun t r₁ ht => ?_
    obtain ⟨rfl, hsees₁, hcontext⟩ := ht
    rw [← hcontext] at hi
    refine (hitem s b bs r₁ w' ws' hi hw' hsees₁).bind fun a r₂ ha => ?_
    obtain ⟨s', hsees₂, hi', hrest⟩ := ha
    exact .pure ⟨a, s', rfl, hsees₂, hi', hrest⟩
  · intro s r hi hsees
    refine (acceptKind_other hsees hw).bind fun t r₁ ht => ?_
    obtain ⟨rfl, rfl⟩ := ht
    exact .pure ⟨rfl, hsees, hnil s _ hi⟩

/-- Items with commas between them. -/
theorem commaSeparated {s : σ} {b : β} {bs : List β} (h : I s (b :: bs) r.context)
    (hsees : r.Sees (Word.separated ((b :: bs).map words) ++ w :: ws)) :
    (Parse.commaSeparated item).Accepts r fun as r' =>
      R s (b :: bs) as r'.context ∧ r'.Sees (w :: ws) := by
  rw [List.map_cons, Word.separated, List.append_assoc, List.flatMap_map] at hsees
  obtain ⟨w', ws', hahead, hw'⟩ := exists_ahead (B := Word.EndsItem w) ws (.inr rfl) (exists_comma w bs)
  rw [hahead] at hsees
  refine (hitem s b bs r w' ws' h hw' hsees).bind fun a r₁ ha => ?_
  obtain ⟨s', hsees₁, hi, hrest⟩ := ha
  rw [← hahead] at hsees₁
  exact (behindCommas hitem hnil hw hi hsees₁).bind
    fun as r₂ has => .pure ⟨hrest as _ has.1, has.2⟩

end

end Accepts

end Parse

end LoopNest
