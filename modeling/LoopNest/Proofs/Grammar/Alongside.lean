import LoopNest.Proofs.Grammar.Accepts
import LoopNest.Proofs.Grammar.ConsumesStmt
import LoopNest.Proofs.Grammar.Progress
import LoopNest.Proofs.Grammar.Strict
import LoopNest.Proofs.Variable.Correspondence

/-!
# Two texts that are read alongside

Two texts may have the same words up to a place and part there. Where both can be read, they are
read alongside up to such a place: the steps are the same, and names stand for corresponding
variables. Only steps that go well are looked at.

* `Fork`: the places at which two texts part.
* `Reader.Alongside`: two readers with the same words ahead up to such a place.
* `Parse.Alongside`: two steps lead from such readers to such readers if both go well.
* `Parse.Alongside.bind`, `Parse.Alongside.many`, `Parse.Alongside.inScope`: one rule for each way
  to build a step from others.
-/

namespace LoopNest

/-! ## Places at which texts part -/

namespace Token.Kind

/-- The kinds of the words at which two texts part: both texts end; attributes stand in front of a
loop of the first one, if there are any, and behind them its header ends where the one of the second
text goes on with the same attributes; or these attributes end. -/
inductive Parting : Token.Kind → Token.Kind → Prop
  | finish : Parting .endOfFile .endOfFile
  | loop : Parting (.keyword .forLoop) (.keyword .forLoop)
  | marks : Parting (.symbol .atSign) (.keyword .forLoop)
  | header : Parting (.symbol .rightParen) (.symbol .semicolon)
  | behind : Parting (.keyword .forLoop) (.symbol .rightParen)

/-- Whether texts may part at a word of that kind. -/
def mayPart : Token.Kind → Bool
  | endOfFile | symbol .atSign | keyword .forLoop | symbol .rightParen | symbol .semicolon => true
  | _ => false

theorem mayPart_cases {k : Token.Kind} (h : k.mayPart = true) :
    k = .endOfFile ∨ k = .symbol .atSign ∨ k = .keyword .forLoop ∨ k = .symbol .rightParen ∨
      k = .symbol .semicolon := by
  unfold Token.Kind.mayPart at h
  split at h <;> simp_all

theorem Parting.mayPart {k k' : Token.Kind} (h : k.Parting k') :
    k.mayPart = true ∧ k'.mayPart = true := by
  cases h <;> exact ⟨rfl, rfl⟩

theorem Parting.left_ne {k k' : Token.Kind} (h : k.Parting k') : k ≠ .symbol .semicolon := by
  cases h <;> simp

theorem Parting.right_ne {k k' : Token.Kind} (h : k.Parting k') : k' ≠ .symbol .atSign := by
  cases h <;> simp

/-- Whether texts may part at two words that are both of that kind. -/
def mayMeet : Token.Kind → Bool
  | endOfFile | keyword .forLoop => true
  | _ => false

theorem Parting.mayMeet {k k' : Token.Kind} (h : k.Parting k') (heq : k = k') :
    k.mayMeet = true := by
  cases h with
  | finish | loop => rfl
  | marks | header | behind => cases heq

end Token.Kind

/-- What two texts have behind the place at which they part. -/
structure Fork where
  ends : List Word → List Word → Prop
  parting : ∀ {ws ws'}, ends ws ws' →
    ∃ w us w' us', ws = w :: us ∧ ws' = w' :: us' ∧ w.kind.Parting w'.kind

/-- Where the texts part, both have a word of that kind or neither has. -/
def Fork.Blind (F : Fork) (k : Token.Kind) : Prop :=
  ∀ {w us w' us'}, F.ends (w :: us) (w' :: us') → (w.kind = k ↔ w'.kind = k)

namespace Fork

variable {F : Fork} {k : Token.Kind}

theorem blind_of_mayPart (hk : k.mayPart = false) : F.Blind k := by
  intro w us w' us' h
  obtain ⟨_, _, _, _, hw, hw', hparting⟩ := F.parting h
  obtain ⟨rfl, -⟩ := List.cons.inj hw
  obtain ⟨rfl, -⟩ := List.cons.inj hw'
  obtain ⟨hleft, hright⟩ := hparting.mayPart
  constructor
  · rintro rfl
    rw [hk] at hleft
    cases hleft
  · rintro rfl
    rw [hk] at hright
    cases hright

theorem blind_endOfFile : F.Blind .endOfFile := by
  intro w us w' us' h
  obtain ⟨_, _, _, _, hw, hw', hparting⟩ := F.parting h
  obtain ⟨rfl, -⟩ := List.cons.inj hw
  obtain ⟨rfl, -⟩ := List.cons.inj hw'
  generalize w.kind = k, w'.kind = k' at hparting
  cases hparting <;> simp

end Fork

/-! ## Names -/

/-- What is known of names in two contexts, with some variables that correspond to one another.
Where a name is used in both contexts, its variables correspond. -/
structure Naming where
  holds : Pairing → Context → Context → Prop
  resolve : ∀ {K c c₁ d d₁ v w}, holds K c d → c.Resolves v c₁ → d.Resolves w d₁ →
    v.name = w.name → ∃ L, K.Le L ∧ holds L c₁ d₁ ∧ L.Refs v w

namespace Naming

/-- Nothing is known of names, and all variables correspond to one another. -/
def none : Naming where
  holds K _ _ := ∀ i j, K.pairs i j
  resolve := fun {K _ _ _ _ v w} h _ _ _ => ⟨K, .refl K, h, h v.id w.id⟩

/-- Names stand for corresponding variables, and `d` scopes are open. If `exact` holds then all
corresponding variables have one type. -/
def inScopes (exact : Prop) (d : Nat) : Naming where
  holds K c c' := Context.Follows exact K c c' ∧ c.frames.length = d
  resolve := by
    intro K c c₁ c' c₁' v w h hv hw hname
    obtain ⟨L, hle, hfollows, hpair⟩ := h.1.resolve hv hw hname
    exact ⟨L, hle, ⟨hfollows, (Context.Run.used hv).length_frames.trans h.2⟩, hpair⟩

end Naming

/-- Two references have the same name, and they stand for corresponding variables. -/
def Pairing.SameRef (K : Pairing) (v w : VarRef) : Prop := v.name = w.name ∧ K.Refs v w

theorem Pairing.SameRef.mono {K L : Pairing} {v w : VarRef} (h : K.SameRef v w) (hle : K.Le L) :
    L.SameRef v w := ⟨h.1, hle.pairs _ _ h.2⟩

/-! ## Readers -/

namespace Reader

/-- The readers have the same words ahead up to a place at which their texts part. -/
structure Alongside (F : Fork) (N : Naming) (K : Pairing) (r r' : Reader) : Prop where
  left : r.Ready
  right : r'.Ready
  words : ∃ us ws ws', F.ends ws ws' ∧ r.Sees (us ++ ws) ∧ r'.Sees (us ++ ws')
  names : N.holds K r.context r'.context

/-- A word is ahead that both texts have, in front of the place at which they part. -/
def Ahead (F : Fork) (r r' : Reader) : Prop :=
  ∃ w us ws ws', F.ends ws ws' ∧ r.Sees (w :: (us ++ ws)) ∧ r'.Sees (w :: (us ++ ws'))

/-- The texts part here. -/
def AtFork (F : Fork) (r r' : Reader) : Prop := ∃ ws ws', F.ends ws ws' ∧ r.Sees ws ∧ r'.Sees ws'

theorem AtFork.parting {F : Fork} {r r' : Reader} (h : AtFork F r r') :
    r.current.kind.Parting r'.current.kind := by
  obtain ⟨ws, ws', hends, hws, hws'⟩ := h
  obtain ⟨w, us, w', us', rfl, rfl, hparting⟩ := F.parting hends
  rw [hws.kind_current, hws'.kind_current]
  exact hparting

theorem Ahead.word_eq {F : Fork} {r r' : Reader} (h : Ahead F r r') :
    r.current.word = r'.current.word := by
  obtain ⟨w, us, ws, ws', -, hws, hws'⟩ := h
  rw [hws.word_current, hws'.word_current]

/-- Over a word that both have they go on. -/
theorem Ahead.advance {F : Fork} {r r' : Reader} (h : Ahead F r r') :
    ∃ us ws ws', F.ends ws ws' ∧ r.advance.2.Sees (us ++ ws) ∧ r'.advance.2.Sees (us ++ ws') := by
  obtain ⟨w, us, ws, ws', hends, hws, hws'⟩ := h
  obtain ⟨_, _, _, _, rfl, rfl, -⟩ := F.parting hends
  exact ⟨us, _, _, hends, (hws.advance (by simp)).2, (hws'.advance (by simp)).2⟩

namespace Ready

variable {α : Type} {r r₁ : Reader} {step strict : Parse α} {a : α} {Q : α → Reader → Prop}

/-- What a run ensures that ends at the first error. -/
theorem of_follows (h : r.Ready) (hfollows : Parse.Follows step strict)
    (hensures : step.Ensures r.remaining r Q) (hrun : strict r = (.ok a, r₁)) :
    r₁.Ready ∧ Q a r₁ := by
  have hclean : r₁.problems = [] := (hfollows.problems_eq hrun).trans h.problems
  unfold Parse.Ensures at hensures
  rw [hfollows.ok hrun] at hensures
  obtain ⟨hsound, -, hq⟩ := (hensures hclean).2 h.sound a rfl
  exact ⟨⟨hclean, hsound.here⟩, hq⟩

theorem of_run (h : r.Ready) (hkeeps : Parse.Keeps SameProblems step)
    (hensures : step.Ensures r.remaining r Q) (hrun : step r = (.ok a, r₁)) :
    r₁.Ready ∧ Q a r₁ := h.of_follows (.same hkeeps) hensures hrun

theorem push (h : r.Ready) : ({ r with scopes := r.scopes.push } : Reader).Ready ∧
    ({ r with scopes := r.scopes.push } : Reader).context = r.context.push := by
  have hcontext := context_push h.sound.scopes
  exact ⟨⟨h.problems, h.sound.of_context h.sound.scopes.push (hcontext ▸ h.sound.context.push)
    rfl rfl⟩, hcontext⟩

theorem pop {s : Scopes} (h : r₁.Ready) (hextends : s.push.Extends r₁.scopes) :
    ({ r₁ with scopes := r₁.scopes.pop } : Reader).Ready ∧
      ({ r₁ with scopes := r₁.scopes.pop } : Reader).context = r₁.context.pop ∧
        2 ≤ r₁.context.frames.length := by
  obtain ⟨hcontext, hne⟩ := context_pop (r := { r₁ with scopes := s }) hextends h.sound.scopes
  have hpos := List.length_pos_iff.mpr hne
  rw [List.length_tail] at hpos
  exact ⟨⟨h.problems, h.sound.of_context h.sound.scopes.pop (hcontext ▸ h.sound.context.pop hne)
    rfl rfl⟩, hcontext, by omega⟩

end Ready

namespace Alongside

variable {F : Fork} {N : Naming} {K : Pairing} {r r' : Reader} {k : Token.Kind}

/-- The current words are the same, or the texts part at them. -/
theorem word_or_parting (h : r.Alongside F N K r') :
    r.current.word = r'.current.word ∨ r.current.kind.Parting r'.current.kind := by
  obtain ⟨us, ws, ws', hends, hws, hws'⟩ := h.words
  cases us with
  | nil =>
    obtain ⟨w, us, w', us', rfl, rfl, hparting⟩ := F.parting hends
    right
    rw [hws.kind_current, hws'.kind_current]
    exact hparting
  | cons w us =>
    left
    rw [hws.word_current, hws'.word_current]

/-- Where the current words are of different kinds the texts part. -/
theorem mayPart (h : r.Alongside F N K r') (hne : r.current.kind ≠ r'.current.kind) :
    r.current.kind.mayPart = true ∧ r'.current.kind.mayPart = true := by
  rcases h.word_or_parting with hword | hparting
  · exact absurd (congrArg Word.kind hword) hne
  · exact hparting.mayPart

/-- Both texts have a word of that kind here, or neither has. -/
theorem kind_iff (h : r.Alongside F N K r') (hk : F.Blind k) :
    r.current.kind = k ↔ r'.current.kind = k := by
  obtain ⟨us, ws, ws', hends, hws, hws'⟩ := h.words
  cases us with
  | nil =>
    obtain ⟨w, us, w', us', rfl, rfl, -⟩ := F.parting hends
    rw [hws.kind_current, hws'.kind_current]
    exact hk hends
  | cons w us =>
    rw [hws.kind_current, hws'.kind_current]

theorem sees_eq (h : r.Alongside F N K r') (hk : F.Blind k) : r.sees k = r'.sees k := by
  have hiff : r.sees k = true ↔ r'.sees k = true := by
    rw [sees, sees, beq_iff_eq, beq_iff_eq]
    exact h.kind_iff hk
  exact Bool.eq_iff_iff.mpr hiff

theorem seesSymbol_eq {s : Symbol} (h : r.Alongside F N K r') (hs : F.Blind (.symbol s)) :
    r.seesSymbol s = r'.seesSymbol s := h.sees_eq hs

/-- What is the same wherever texts may part is the same here. -/
theorem kind_congr {α : Type} (h : r.Alongside F N K r') (f : Token.Kind → α) {a : α}
    (hf : ∀ k, k.mayPart = true → f k = a) : f r.current.kind = f r'.current.kind := by
  rcases h.word_or_parting with hword | hparting
  · exact congrArg (f ∘ Word.kind) hword
  · obtain ⟨hleft, hright⟩ := hparting.mayPart
    rw [hf _ hleft, hf _ hright]

theorem word_eq (h : r.Alongside F N K r') (hkind : r.current.kind = r'.current.kind)
    (hgo : r.current.kind.mayMeet = false) : r.current.word = r'.current.word := by
  rcases h.word_or_parting with hword | hparting
  · exact hword
  · exact absurd (hparting.mayMeet hkind) (Bool.eq_false_iff.mp hgo)

/-- What lies ahead stays, and names may come to stand for other things. -/
theorem of_remaining {r₁ r₁' : Reader} {N' : Naming} {L : Pairing} (h : r.Alongside F N K r')
    (hleft : r₁.Ready) (hright : r₁'.Ready) (hr : r₁.remaining = r.remaining)
    (hr' : r₁'.remaining = r'.remaining) (hnames : N'.holds L r₁.context r₁'.context) :
    r₁.Alongside F N' L r₁' := by
  obtain ⟨us, ws, ws', hends, hws, hws'⟩ := h.words
  exact ⟨hleft, hright, ⟨us, ws, ws', hends, hws.of_remaining hr, hws'.of_remaining hr'⟩, hnames⟩

/-- The texts part here, or the readers have a word in front of them that both texts have. -/
theorem ahead_or_atFork (h : r.Alongside F N K r') : Ahead F r r' ∨ AtFork F r r' := by
  obtain ⟨us, ws, ws', hends, hws, hws'⟩ := h.words
  cases us with
  | nil => exact .inr ⟨ws, ws', hends, hws, hws'⟩
  | cons w us => exact .inl ⟨w, us, ws, ws', hends, hws, hws'⟩

/-- Both readers open a scope. -/
theorem push {exact : Prop} {d : Nat} (h : r.Alongside F (.inScopes exact d) K r') :
    Reader.Alongside F (.inScopes exact (d + 1)) K { r with scopes := r.scopes.push }
      { r' with scopes := r'.scopes.push } := by
  obtain ⟨hready, hpush⟩ := h.left.push
  obtain ⟨hready', hpush'⟩ := h.right.push
  refine h.of_remaining hready hready' rfl rfl ?_
  rw [hpush, hpush']
  exact ⟨h.names.1.push, congrArg Nat.succ h.names.2⟩

/-- Both readers close a scope that they opened. -/
theorem pop {exact : Prop} {d : Nat} {s s' : Scopes}
    (h : r.Alongside F (.inScopes exact (d + 1)) K r')
    (hextends : s.push.Extends r.scopes) (hextends' : s'.push.Extends r'.scopes) :
    Reader.Alongside F (.inScopes exact d) K { r with scopes := r.scopes.pop }
      { r' with scopes := r'.scopes.pop } := by
  obtain ⟨hready, hpop, hframes⟩ := h.left.pop hextends
  obtain ⟨hready', hpop', -⟩ := h.right.pop hextends'
  refine h.of_remaining hready hready' rfl rfl ?_
  rw [hpop, hpop']
  refine ⟨h.names.1.pop hframes, ?_⟩
  show (List.tail _).length = d
  rw [List.length_tail, h.names.2, Nat.add_sub_cancel]

theorem ahead (h : r.Alongside F N K r') (hkind : r.current.kind = r'.current.kind)
    (hgo : r.current.kind.mayMeet = false) : Ahead F r r' := by
  rcases h.ahead_or_atFork with hahead | hfork
  · exact hahead
  · exact absurd (hfork.parting.mayMeet hkind) (Bool.eq_false_iff.mp hgo)

end Alongside

end Reader

/-! ## Steps -/

namespace Parse

variable {α α' β β' : Type}

/-- If both steps go well at two readers alongside, then their results satisfy `Q` and they lead to
readers alongside, maybe with more pairs of variables. -/
def Alongside (F : Fork) (N : Naming) (K : Pairing) (Q : Pairing → α → α' → Prop) (step : Parse α)
    (step' : Parse α') (r r' : Reader) : Prop :=
  r.Alongside F N K r' → ∀ a a' r₁ r₁', step r = (.ok a, r₁) → step' r' = (.ok a', r₁') →
    ∃ L, K.Le L ∧ r₁.Alongside F N L r₁' ∧ Q L a a'

/-- A repeated step that yields something takes a token. -/
def Advances (item : Parse (Option α)) : Prop :=
  ∀ r : Reader, r.Ready → ∀ a r₁, item r = (.ok (some a), r₁) →
    r₁.remaining.length < r.remaining.length

namespace Advances

theorem of_agrees {item : Parse (Option α)}
    (h : ∀ r, item.Agrees item r fun o => o.isSome = true) : item.Advances := by
  intro r hready a r₁ hrun
  obtain ⟨-, -, hpast⟩ := h r hready.sound.closed
  rw [hrun] at hpast
  exact Nat.succ_lt_succ (hpast (some a) rfl rfl)

theorem of_consumes {item : Parse (Option α)} {Q : List Token → Option α → Prop}
    (h : ∀ r, item.Consumes r Q) (hne : ∀ ts a, Q ts (some a) → ts ≠ []) : item.Advances := by
  intro r hready a r₁ hrun
  obtain ⟨-, -, ts, htook, hq⟩ := h r hready.sound.closed hready.sound.scoped (some a) r₁ hrun
  have hpos := List.length_pos_iff.mpr (hne ts a hq)
  rw [htook.remaining, List.length_append, List.length_map]
  omega

/-- What is read behind a symbol. -/
theorem behindSymbol (s : Symbol) {rest : Parse (Option α)}
    (h : ∀ r, rest.Consumes r fun _ _ => True) :
    Advances (do if ← Parse.accept s then rest else Pure.pure none) := by
  have hconsumes (r : Reader) :
      (do if ← Parse.accept s then rest else Pure.pure none : Parse (Option α)).Consumes r
        fun ts o => o.isSome = true → ts ≠ [] := by
    apply (Consumes.acceptKind (by simp) r).bind
    intro accepted r₁ ts hts
    cases accepted with
    | false => exact .pure fun hnone => absurd hnone (by simp)
    | true =>
      obtain ⟨t, rfl, -⟩ := hts
      exact (h r₁).mono fun _ _ _ _ => List.cons_ne_nil _ _
  exact of_consumes hconsumes fun _ _ hts => hts rfl

/-- An item behind a comma. -/
theorem separated {item : Parse α} {Q : List Token → α → Prop} (h : ∀ r, item.Consumes r Q) :
    (Parse.separated item).Advances :=
  behindSymbol .comma fun r => (h r).bind fun _ _ _ _ => .pure trivial

end Advances

/-! ## Steps that fail -/

/-- The step does not go well at that reader. -/
def Fails (step : Parse α) (r : Reader) : Prop := ∀ a r₁, step r ≠ (.ok a, r₁)

namespace Fails

variable {step : Parse α} {r : Reader}

theorem fail (cause : Problem.Cause) (r : Reader) : Fails (Parse.fail cause : Parse α) r := by
  intro a r₁ hrun
  cases hrun

theorem bind {next : α → Parse β} (h : step.Fails r) : (step >>= next).Fails r := by
  intro b r₂ hrun
  obtain ⟨a, r₁, hstep, -⟩ := bind_eq_ok hrun
  exact h a r₁ hstep

/-- The first step goes well, and the second one fails. -/
theorem behind {next : α → Parse β} {a : α} {r₁ : Reader} (hrun : step r = (.ok a, r₁))
    (h : (next a).Fails r₁) : (step >>= next).Fails r := by
  intro b r₂ hrun'
  rw [bind_apply, hrun] at hrun'
  exact h b r₂ hrun'

theorem get {next : Reader → Parse α} (h : (next r).Fails r) :
    (MonadStateOf.get >>= next).Fails r := h

end Fails

theorem acceptKind_of_ne {k : Token.Kind} {r : Reader} (h : r.current.kind ≠ k) :
    Parse.acceptKind k r = (.ok false, r) := by
  have hsees : ¬ r.sees k = true := fun hsees => h (eq_of_beq hsees)
  show (if r.sees k then _ else Pure.pure false : Parse Bool) r = _
  rw [if_neg hsees]
  rfl

/-- A repeated step that yields nothing at once. -/
theorem many_of_none {item : Parse (Option α)} {r r₁ : Reader} (h : item r = (.ok none, r₁)) :
    Parse.many item r = (.ok [], r₁) := by
  show manyFor item r.remaining r = _
  rw [Reader.remaining, manyFor, bind_apply, h]
  rfl

namespace Alongside

variable {F : Fork} {N : Naming} {K : Pairing} {r r' : Reader} {step : Parse α} {step' : Parse α'}
  {Q : Pairing → α → α' → Prop}

/-- The readers may be taken to be alongside. -/
theorem intro (h : r.Alongside F N K r' → step.Alongside F N K Q step' r r') :
    step.Alongside F N K Q step' r r' := fun hr => h hr hr

theorem pure {a : α} {a' : α'} (h : Q K a a') :
    Alongside F N K Q (Pure.pure a) (Pure.pure a') r r' := by
  intro hr b b' r₁ r₁' hrun hrun'
  rw [pure_apply] at hrun hrun'
  cases hrun
  cases hrun'
  exact ⟨K, .refl K, hr, h⟩

theorem fails_left (h : step.Fails r) : step.Alongside F N K Q step' r r' :=
  fun _ a _ r₁ _ hrun => absurd hrun (h a r₁)

theorem fails_right (h : step'.Fails r') : step.Alongside F N K Q step' r r' :=
  fun _ _ a' _ r₁' _ hrun' => absurd hrun' (h a' r₁')

theorem bind {S : Pairing → β → β' → Prop} {next : α → Parse β} {next' : α' → Parse β'}
    (h : step.Alongside F N K Q step' r r')
    (hnext : ∀ L a a' r₁ r₁', K.Le L → Q L a a' → (next a).Alongside F N L S (next' a') r₁ r₁') :
    (step >>= next).Alongside F N K S (step' >>= next') r r' := by
  intro hr b b' r₂ r₂' hrun hrun'
  obtain ⟨a, r₁, hstep, hrun⟩ := bind_eq_ok hrun
  obtain ⟨a', r₁', hstep', hrun'⟩ := bind_eq_ok hrun'
  obtain ⟨L, hle, hr₁, hq⟩ := h hr a a' r₁ r₁' hstep hstep'
  obtain ⟨M, hle', hr₂, hs⟩ := hnext L a a' r₁ r₁' hle hq hr₁ b b' r₂ r₂' hrun hrun'
  exact ⟨M, hle.trans hle', hr₂, hs⟩

/-- Steps that look at the readers first. -/
theorem get {next : Reader → Parse α} {next' : Reader → Parse α'}
    (h : r.Alongside F N K r' → (next r).Alongside F N K Q (next' r') r r') :
    (MonadStateOf.get >>= next).Alongside F N K Q (MonadStateOf.get >>= next') r r' := intro h

theorem ite {p : Prop} [Decidable p] {other : Parse α} {other' : Parse α'}
    (h : p → step.Alongside F N K Q step' r r')
    (hother : ¬ p → other.Alongside F N K Q other' r r') :
    (if p then step else other).Alongside F N K Q (if p then step' else other') r r' := by
  by_cases hp : p
  · rw [if_pos hp, if_pos hp]
    exact h hp
  · rw [if_neg hp, if_neg hp]
    exact hother hp

/-- One step where nothing may follow, and another one where something has to, which fails where the
texts part. -/
theorem iteOrFails {p p' : Prop} [Decidable p] [Decidable p'] {other : Parse α} {other' : Parse α'}
    (hp : r.current.kind = r'.current.kind → (p ↔ p'))
    (h : step.Alongside F N K Q step' r r') (hother : other.Alongside F N K Q other' r r')
    (hfails : r.current.kind.mayPart = true → other.Fails r)
    (hfails' : r'.current.kind.mayPart = true → other'.Fails r') :
    (if p then step else other).Alongside F N K Q (if p' then step' else other') r r' := by
  refine .intro fun hr => ?_
  by_cases hleft : p <;> by_cases hright : p'
  · rw [if_pos hleft, if_pos hright]
    exact h
  · rw [if_neg hright]
    exact .fails_right (hfails' (hr.mayPart fun heq => hright ((hp heq).mp hleft)).2)
  · rw [if_neg hleft]
    exact .fails_left (hfails (hr.mayPart fun heq => hleft ((hp heq).mpr hright)).1)
  · rw [if_neg hleft, if_neg hright]
    exact hother

/-- A step that fails at once where the texts part. The first text has no semicolon there. -/
theorem of_kind_eq (h : r.current.kind = r'.current.kind → step.Alongside F N K Q step' r r')
    (hfails : r.current.kind.mayPart = true → r.current.kind ≠ .symbol .semicolon → step.Fails r) :
    step.Alongside F N K Q step' r r' := by
  refine .intro fun hr => ?_
  by_cases hkind : r.current.kind = r'.current.kind
  · exact h hkind
  · rcases hr.word_or_parting with hword | hparting
    · exact absurd (congrArg Word.kind hword) hkind
    · exact .fails_left (hfails hparting.mayPart.1 hparting.left_ne)

/-! ## Tokens -/

theorem advance_of_ahead (h : Reader.Ahead F r r') :
    Parse.advance.Alongside F N K (fun _ _ _ => True) Parse.advance r r' := by
  intro hr _ _ r₁ r₁' hrun hrun'
  have hkeeps := Keeps.advance Reader.sameProblems_invariant
  obtain ⟨hready, -, hcontext⟩ := hr.left.of_run hkeeps (Ensures.advance r) hrun
  obtain ⟨hready', -, hcontext'⟩ := hr.right.of_run hkeeps (Ensures.advance r') hrun'
  rw [advance_apply] at hrun hrun'
  obtain ⟨-, rfl⟩ := Prod.mk.inj hrun
  obtain ⟨-, rfl⟩ := Prod.mk.inj hrun'
  refine ⟨K, .refl K, ⟨hready, hready', h.advance, ?_⟩, trivial⟩
  rw [hcontext, hcontext']
  exact hr.names

theorem advance (hkind : r.current.kind = r'.current.kind)
    (hgo : r.current.kind.mayMeet = false) :
    Parse.advance.Alongside F N K (fun _ _ _ => True) Parse.advance r r' :=
  .intro fun hr => advance_of_ahead (hr.ahead hkind hgo)

/-- Where both texts have a word of that kind, or neither has. -/
theorem acceptKind_of_iff {k : Token.Kind} (hk : r.current.kind = k ↔ r'.current.kind = k)
    (hgo : k.mayMeet = false) :
    (Parse.acceptKind k).Alongside F N K (fun _ b b' => b = b') (Parse.acceptKind k) r r' := by
  have hsees : r.sees k = r'.sees k := by
    rw [Bool.eq_iff_iff, Reader.sees, Reader.sees, beq_iff_eq, beq_iff_eq]
    exact hk
  refine .get fun hr => ?_
  rw [hsees]
  refine .ite (fun hsees' => ?_) fun _ => .pure rfl
  have hkind' : r'.current.kind = k := eq_of_beq hsees'
  have hkind : r.current.kind = k := hk.mpr hkind'
  exact (advance (hkind.trans hkind'.symm) (hkind ▸ hgo)).bind fun _ _ _ _ _ _ _ => .pure rfl

theorem acceptKind {k : Token.Kind} (hk : F.Blind k) (hgo : k.mayMeet = false) (r r' : Reader) :
    (Parse.acceptKind k).Alongside F N K (fun _ b b' => b = b') (Parse.acceptKind k) r r' :=
  .intro fun hr => acceptKind_of_iff (hr.kind_iff hk) hgo

theorem accept {s : Symbol} (hs : F.Blind (.symbol s)) (r r' : Reader) :
    (Parse.accept s).Alongside F N K (fun _ b b' => b = b') (Parse.accept s) r r' :=
  acceptKind hs rfl r r'

/-- Where the texts part, one of the steps fails. -/
theorem expect (s : Symbol) (place : Place) (r r' : Reader) :
    (Parse.expect s place).Alongside F N K (fun _ _ _ => True) (Parse.expect s place) r r' := by
  refine .get fun hr => ?_
  by_cases hsees : r.seesSymbol s = true
  · by_cases hsees' : r'.seesSymbol s = true
    · rw [if_pos hsees, if_pos hsees']
      have hkind : r.current.kind = .symbol s := eq_of_beq hsees
      have hkind' : r'.current.kind = .symbol s := eq_of_beq hsees'
      exact advance (hkind.trans hkind'.symm) (by rw [hkind]; rfl)
    · rw [if_neg hsees']
      exact .fails_right (.fail _ r')
  · rw [if_neg hsees]
    exact .fails_left (.fail _ r)

theorem name (named : Named) (r r' : Reader) :
    (Parse.name named).Alongside F N K (fun _ n n' => n = n') (Parse.name named) r r' := by
  refine .get fun hr => ?_
  have hblind : F.Blind .identifier := Fork.blind_of_mayPart rfl
  rw [hr.sees_eq hblind]
  refine .ite (fun hsees => ?_) fun _ => .fails_left (.fail _ r)
  have hkind' : r'.current.kind = .identifier := eq_of_beq hsees
  have hkind : r.current.kind = .identifier := (hr.kind_iff hblind).mpr hkind'
  have hword := hr.word_eq (hkind.trans hkind'.symm) (by rw [hkind]; rfl)
  refine (advance (hkind.trans hkind'.symm) (by rw [hkind]; rfl)).bind fun _ _ _ _ _ _ _ => .pure ?_
  exact congrArg Word.lexeme hword

/-! ## Names -/

theorem resolve (n : String) (span span' : Span) (r r' : Reader) :
    (Parse.resolve n span).Alongside F N K Pairing.SameRef (Parse.resolve n span') r r' := by
  intro hr v w r₁ r₁' hrun hrun'
  have hkeeps (span : Span) : Keeps Reader.SameProblems (Parse.resolve n span) :=
    Reader.sameProblems_invariant.closed.resolve n span
  obtain ⟨hready, hname, hresolves, -⟩ :=
    hr.left.of_run (hkeeps span) (Ensures.resolve n span r) hrun
  obtain ⟨hready', hname', hresolves', -⟩ :=
    hr.right.of_run (hkeeps span') (Ensures.resolve n span' r') hrun'
  obtain ⟨L, hle, hnames, hpair⟩ :=
    N.resolve hr.names hresolves hresolves' (hname.trans hname'.symm)
  rw [resolve_apply] at hrun hrun'
  obtain ⟨-, rfl⟩ := Prod.mk.inj hrun
  obtain ⟨-, rfl⟩ := Prod.mk.inj hrun'
  exact ⟨L, hle, hr.of_remaining hready hready' rfl rfl hnames, hname.trans hname'.symm, hpair⟩

/-- The same name is declared with the same type. -/
theorem declareOnce {exact : Prop} {d : Nat} (n : String) (type : VarType) (span span' : Span)
    (r r' : Reader) :
    (Grammar.Handling.declareOnce n type span).Alongside F (.inScopes exact d) K
      (fun L v w => L.SameRef v w ∧ L.typed v.id w.id)
      (Grammar.Handling.declareOnce n type span') r r' := by
  intro hr v w r₁ r₁' hrun hrun'
  have hfollows := Grammar.Handling.declare_follows n type
  obtain ⟨hready, hname, hdeclares, -⟩ :=
    hr.left.of_follows (hfollows span) (Ensures.declare n type span r) hrun
  obtain ⟨hready', hname', hdeclares', -⟩ :=
    hr.right.of_follows (hfollows span') (Ensures.declare n type span' r') hrun'
  have hnames := hr.names.1.declare hdeclares hdeclares' (hname.trans hname'.symm) fun _ => rfl
  have hpairs := K.add_self v.id w.id (type = type)
  have hremaining {s s' : Reader} {u : VarRef} {place : Span}
      (h : Grammar.Handling.declareOnce n type place s = (.ok u, s')) :
      s'.remaining = s.remaining := by
    rw [Grammar.Handling.declareOnce_apply] at h
    split at h
    · cases h
    · obtain ⟨-, rfl⟩ := Prod.mk.inj h
      rfl
  have hdepth := (Context.Run.declared hdeclares).length_frames.trans hr.names.2
  exact ⟨_, K.le_add v.id w.id (type = type), hr.of_remaining hready hready' (hremaining hrun)
    (hremaining hrun') ⟨hnames, hdepth⟩, ⟨hname.trans hname'.symm, hpairs⟩,
    .inr ⟨rfl, rfl, rfl⟩⟩

/-! ## Scopes and repetition -/

/-- Steps in scopes of their own. -/
theorem inScope {exact : Prop} {d : Nat} (hkeeps : Keeps Reader.Extends step)
    (hkeeps' : Keeps Reader.Extends step')
    (h : ∀ r r', step.Alongside F (.inScopes exact (d + 1)) K Q step' r r') (r r' : Reader) :
    (Parse.inScope step).Alongside F (.inScopes exact d) K Q (Parse.inScope step') r r' := by
  intro hr a a' r₁ r₁' hrun hrun'
  rw [inScope_apply] at hrun hrun'
  obtain ⟨ha, rfl⟩ := Prod.mk.inj hrun
  obtain ⟨ha', rfl⟩ := Prod.mk.inj hrun'
  obtain ⟨L, hle, hinner, hq⟩ := h _ _ hr.push a a' _ _ (Prod.ext ha rfl) (Prod.ext ha' rfl)
  have hextends : Reader.Extends { r with scopes := r.scopes.push } _ := hkeeps _
  have hextends' : Reader.Extends { r' with scopes := r'.scopes.push } _ := hkeeps' _
  exact ⟨L, hle, hinner.pop hextends.scopes hextends'.scopes, hq⟩

/-- Repeated steps take the same number of rounds, if each text has enough of them. -/
theorem manyFor {item : Parse (Option α)} {item' : Parse (Option α')} (hadvances : item.Advances)
    (hadvances' : item'.Advances) (hlasting : Pairing.Lasting Q)
    (h : ∀ K r r', item.Alongside F N K (fun L => Option.Rel (Q L)) item' r r')
    (rounds rounds' : List Item) (K : Pairing) (r r' : Reader)
    (hr : r.remaining.length ≤ rounds.length) (hr' : r'.remaining.length ≤ rounds'.length) :
    (Parse.manyFor item rounds).Alongside F N K (fun L => List.Forall₂ (Q L))
      (Parse.manyFor item' rounds') r r' := by
  induction rounds generalizing rounds' K r r' with
  | nil => exact absurd hr (by simp [Reader.remaining])
  | cons _ rounds ih =>
    cases rounds' with
    | nil => exact absurd hr' (by simp [Reader.remaining])
    | cons _ rounds' =>
      intro halong as as' r₂ r₂' hrun hrun'
      obtain ⟨o, r₁, hitem, hrun⟩ := bind_eq_ok hrun
      obtain ⟨o', r₁', hitem', hrun'⟩ := bind_eq_ok hrun'
      obtain ⟨L, hle, hr₁, ho⟩ := h K r r' halong o o' r₁ r₁' hitem hitem'
      cases ho with
      | none =>
        obtain ⟨L', hle', hr₂, hq⟩ := (Alongside.pure .nil : Alongside F N L
          (fun L => List.Forall₂ (Q L)) _ _ _ _) hr₁ as as' r₂ r₂' hrun hrun'
        exact ⟨L', hle.trans hle', hr₂, hq⟩
      | @some a a' ha =>
        have hlt := hadvances r halong.left a r₁ hitem
        have hlt' := hadvances' r' halong.right a' r₁' hitem'
        rw [List.length_cons] at hr hr'
        have hrest : Alongside F N L (fun L => List.Forall₂ (Q L))
            (Parse.manyFor item rounds >>= fun as => Pure.pure (a :: as))
            (Parse.manyFor item' rounds' >>= fun as => Pure.pure (a' :: as)) r₁ r₁' :=
          (ih rounds' L r₁ r₁' (by omega) (by omega)).bind fun M as as' _ _ hle' has =>
            .pure (.cons (hlasting.mono hle' ha) has)
        obtain ⟨M, hle', hr₂, hq⟩ := hrest hr₁ as as' r₂ r₂' hrun hrun'
        exact ⟨M, hle.trans hle', hr₂, hq⟩

theorem many {item : Parse (Option α)} {item' : Parse (Option α')} (hadvances : item.Advances)
    (hadvances' : item'.Advances) (hlasting : Pairing.Lasting Q)
    (h : ∀ K r r', item.Alongside F N K (fun L => Option.Rel (Q L)) item' r r') (r r' : Reader) :
    (Parse.many item).Alongside F N K (fun L => List.Forall₂ (Q L)) (Parse.many item') r r' :=
  .get fun _ => manyFor hadvances hadvances' hlasting h _ _ K r r' (Nat.le_refl _) (Nat.le_refl _)

/-- Either a symbol is taken and a step follows, or nothing is done. -/
theorem behindSymbol {s : Symbol} (hs : F.Blind (.symbol s)) {otherwise : α} {otherwise' : α'}
    (hlasting : Pairing.Lasting Q) (hother : Q K otherwise otherwise')
    (h : ∀ L r r', K.Le L → step.Alongside F N L Q step' r r') (r r' : Reader) :
    Alongside F N K Q (do if ← Parse.accept s then step else Pure.pure otherwise)
      (do if ← Parse.accept s then step' else Pure.pure otherwise') r r' := by
  refine (accept hs r r').bind fun L b b' r₁ r₁' hle hb => ?_
  subst hb
  exact .ite (fun _ => h L r₁ r₁' hle) fun _ => .pure (hlasting.mono hle hother)

theorem separated {item : Parse α} {item' : Parse α'}
    (h : ∀ K r r', item.Alongside F N K Q item' r r') (r r' : Reader) :
    (Parse.separated item).Alongside F N K (fun L => Option.Rel (Q L)) (Parse.separated item')
      r r' := by
  refine (accept (Fork.blind_of_mayPart rfl) r r').bind fun L b b' r₁ r₁' _ hb => ?_
  subst hb
  refine .ite (fun _ => ?_) fun _ => .pure .none
  exact (h L r₁ r₁').bind fun M a a' _ _ _ ha => .pure (.some ha)

theorem commaSeparated {item : Parse α} {item' : Parse α'}
    (hadvances : (Parse.separated item).Advances) (hadvances' : (Parse.separated item').Advances)
    (hlasting : Pairing.Lasting Q) (h : ∀ K r r', item.Alongside F N K Q item' r r') (r r' : Reader) :
    (Parse.commaSeparated item).Alongside F N K (fun L => List.Forall₂ (Q L))
      (Parse.commaSeparated item') r r' := by
  rw [commaSeparated_eq, commaSeparated_eq]
  refine (h K r r').bind fun L a a' r₁ r₁' _ ha => ?_
  refine (many hadvances hadvances' hlasting (fun K => separated h) r₁ r₁').bind
    fun M as as' _ _ hle has => .pure ?_
  exact .cons (hlasting.mono hle ha) has

end Alongside

end Parse

end LoopNest
