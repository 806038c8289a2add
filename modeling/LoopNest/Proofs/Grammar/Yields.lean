import LoopNest.Proofs.Grammar.Rounds

/-!
# What a step of reading yields

A postcondition on the result of a step, whatever the reader before it and behind it.

* `Parse.Yields`: every result of the step has the property.
* `Parse.Yields.bind`, `Parse.Yields.many`, `Parse.Yields.inScope`, `Parse.Yields.recovering`:
  one rule for each way to build a step from others.
* `Parse.Yields.items`: items some of which could not be read.
* `Program.forall_functions_of_read`: a program that was read has the functions that the grammar
  yields.
* `Reader.exists_of_ofSource`, `Program.exists_of_read`: reading a given text, by evaluation.
-/

namespace LoopNest

namespace Parse

variable {α β : Type} {P Q : α → Prop} {R : β → Prop}

theorem pure_apply (a : α) (r : Reader) : (pure a : Parse α) r = (.ok a, r) := rfl

theorem bind_apply (step : Parse α) (next : α → Parse β) (r : Reader) :
    (step >>= next) r =
      match step r with
      | (.ok a, r') => next a r'
      | (.error failure, r') => (.error failure, r') := by
  change ExceptT.bindCont next (step r).1 (step r).2 = _
  rcases step r with ⟨result, r'⟩
  cases result <;> rfl

/-- Where two steps go well, so does the first of them. -/
theorem bind_eq_ok {step : Parse α} {next : α → Parse β} {r r' : Reader} {b : β}
    (h : (step >>= next) r = (.ok b, r')) :
    ∃ a r₁, step r = (.ok a, r₁) ∧ next a r₁ = (.ok b, r') := by
  rw [bind_apply] at h
  rcases hstep : step r with ⟨failure | a, r₁⟩
  · rw [hstep] at h
    cases h
  · rw [hstep] at h
    exact ⟨a, r₁, rfl, h⟩

/-- Where two steps fail, one of them does. -/
theorem bind_eq_error {step : Parse α} {next : α → Parse β} {r r' : Reader} {failure : Failure}
    (h : (step >>= next) r = (.error failure, r')) : step r = (.error failure, r') ∨
      ∃ a r₁, step r = (.ok a, r₁) ∧ next a r₁ = (.error failure, r') := by
  rw [bind_apply] at h
  rcases hstep : step r with ⟨first | a, r₁⟩
  · rw [hstep] at h
    obtain ⟨hfirst, rfl⟩ := Prod.mk.inj h
    obtain rfl := Except.error.inj hfirst
    exact .inl rfl
  · rw [hstep] at h
    exact .inr ⟨a, r₁, rfl, h⟩

theorem inScope_apply (step : Parse α) (r : Reader) :
    Parse.inScope step r =
      ((step { r with scopes := r.scopes.push }).1,
        { (step { r with scopes := r.scopes.push }).2 with
          scopes := (step { r with scopes := r.scopes.push }).2.scopes.pop }) := rfl

theorem inScope_eq_ok {step : Parse α} {a : α} {r r₁ : Reader}
    (h : step.inScope r = (.ok a, r₁)) :
    ∃ r₂, step { r with scopes := r.scopes.push } = (.ok a, r₂) ∧
      r₁ = { r₂ with scopes := r₂.scopes.pop } := by
  rw [inScope_apply] at h
  obtain ⟨ha, hr⟩ := Prod.mk.inj h
  exact ⟨_, Prod.ext ha rfl, hr.symm⟩

theorem recovering_of_ok {step : Parse α} {r r' : Reader} {a : α} (h : step r = (.ok a, r'))
    (recover : Reader → Reader) : Parse.recovering step recover r = (.ok (some a), r') := by
  rw [Parse.recovering, h]

theorem recovering_of_error {step : Parse α} {r r' : Reader} {failure : Failure}
    (h : step r = (.error failure, r')) (recover : Reader → Reader) :
    Parse.recovering step recover r =
      (.ok none, recover (r'.addProblem (failure.problemAt r'))) := by
  rw [Parse.recovering, h]

theorem advance_apply (r : Reader) :
    Parse.advance r = (r.advance.1.mapError Failure.fault, r.advance.2) := by
  have hget : (get : Parse Reader) r = (.ok r, r) := rfl
  unfold Parse.advance
  rw [bind_apply, hget]
  dsimp only
  rcases r.advance with ⟨result, r'⟩
  cases result <;> rfl

theorem resolve_apply (n : String) (span : Span) (r : Reader) :
    Parse.resolve n span r =
      (.ok (r.scopes.resolve r.vars n span).1,
        { r with
          vars := (r.scopes.resolve r.vars n span).2.1
          scopes := (r.scopes.resolve r.vars n span).2.2 }) := rfl

theorem declare_apply (n : String) (type : VarType) (span : Span) (r : Reader) :
    Parse.declare n type span r =
      (.ok (r.scopes.declare r.vars n type span).1.1,
        let r' := { r with
          vars := (r.scopes.declare r.vars n type span).2.1
          scopes := (r.scopes.declare r.vars n type span).2.2 }
        if (r.scopes.declare r.vars n type span).1.2 then
          r'.addProblem ⟨.redefinition n, span, none⟩
        else r') := rfl

/-- Every result of the step satisfies `P`. A step that fails has none. -/
def Yields (step : Parse α) (P : α → Prop) : Prop :=
  ∀ r a r', step r = (.ok a, r') → P a

namespace Yields

theorem any (step : Parse α) : step.Yields fun _ => True := fun _ _ _ _ => trivial

theorem mono {step : Parse α} (h : step.Yields P) (himp : ∀ a, P a → Q a) : step.Yields Q :=
  fun r a r' hrun => himp a (h r a r' hrun)

theorem pure {a : α} (h : P a) : Yields (Pure.pure a) P := by
  intro r b r' hrun
  rw [pure_apply] at hrun
  cases hrun
  exact h

theorem fail (cause : Problem.Cause) : Yields (Parse.fail cause) P := by
  intro r a r' hrun
  cases hrun

/-- A step that goes on with the result of another one. -/
theorem bind {step : Parse α} {next : α → Parse β} (h : step.Yields P)
    (hnext : ∀ a, P a → (next a).Yields R) : (step >>= next).Yields R := by
  intro r b r' hrun
  obtain ⟨a, r₁, hstep, hrun⟩ := bind_eq_ok hrun
  exact hnext a (h r a r₁ hstep) r₁ b r' hrun

/-- The result of the first step does not matter. -/
theorem after (step : Parse α) {next : α → Parse β} (hnext : ∀ a, (next a).Yields R) :
    (step >>= next).Yields R :=
  (any step).bind fun a _ => hnext a

theorem inScope {step : Parse α} (h : step.Yields P) : (Parse.inScope step).Yields P := by
  intro r a r' hrun
  rw [inScope_apply] at hrun
  obtain ⟨ha, -⟩ := Prod.mk.inj hrun
  exact h _ a _ (Prod.ext ha rfl)

theorem recovering {step : Parse α} (h : step.Yields P) (recover : Reader → Reader) :
    (Parse.recovering step recover).Yields fun o => ∀ a ∈ o, P a := by
  intro r o r' hrun a ha
  rcases hstep : step r with ⟨failure | b, r₁⟩
  · rw [recovering_of_error hstep] at hrun
    cases hrun
    cases ha
  · rw [recovering_of_ok hstep] at hrun
    cases hrun
    cases ha
    exact h r a r' hstep

/-- An item that is read unless there is none left, with nothing made of one that cannot be
read. -/
theorem item {step : Parse α} {stop : Reader → Bool} {recover : Reader → Reader → Reader}
    (h : step.Yields P) : (Parse.itemUnless stop fun r => Parse.recovering step (recover r)).Yields
      fun item => ∀ o ∈ item, ∀ a ∈ o, P a := by
  refine after _ fun r => ?_
  split
  · exact pure fun o ho => absurd ho (by simp)
  · refine (h.recovering (recover r)).bind fun o ho => pure fun o' ho' => ?_
    cases ho'
    exact ho

theorem manyFor {step : Parse (Option α)} (h : step.Yields fun o => ∀ a ∈ o, P a)
    (rounds : List Item) : (Parse.manyFor step rounds).Yields fun as => ∀ a ∈ as, P a := by
  induction rounds with
  | nil => exact pure fun a ha => absurd ha List.not_mem_nil
  | cons _ rounds ih =>
    refine h.bind fun o ho => ?_
    cases o with
    | none => exact pure fun a ha => absurd ha List.not_mem_nil
    | some a =>
      refine ih.bind fun as has => pure ?_
      intro b hb
      rcases List.mem_cons.mp hb with rfl | hb
      · exact ho b rfl
      · exact has b hb

theorem many {step : Parse (Option α)} (h : step.Yields fun o => ∀ a ∈ o, P a) :
    (Parse.many step).Yields fun as => ∀ a ∈ as, P a :=
  after get fun r => manyFor h r.remaining

/-- What is made of the items satisfies what each item does. -/
theorem items {step : Parse (Option (Option α))}
    (h : step.Yields fun item => ∀ o ∈ item, ∀ a ∈ o, P a) :
    (Parse.many step).Yields fun os => ∀ a ∈ os.filterMap id, P a := by
  refine h.many.mono fun os hos a ha => ?_
  obtain ⟨o, ho, ha⟩ := List.mem_filterMap.mp ha
  exact hos o ho a ha

end Yields

end Parse

/-! ## Programs -/

namespace Program

variable {source : String}

/-- The functions of a program that was read are functions that the grammar yields. -/
theorem forall_functions_of_read {P : List Function → Prop}
    (h : Grammar.functions.Yields P) {p : Program}
    (hp : Program.read source = .ok p) : P p.functions := by
  unfold read at hp
  cases hr : Reader.ofSource source with
  | error f => simp [hr] at hp
  | ok r =>
    rcases hrun : Grammar.functions r with ⟨result, r'⟩
    simp only [hr, hrun] at hp
    cases result with
    | error failure => cases hp
    | ok fs =>
      dsimp only at hp
      split at hp
      · cases hp
        exact h r fs r' hrun
      · cases hp

end Program

/-! ## Reading a given text

Decoding a string takes most of the time of an evaluation. An ASCII text needs no decoding. -/

namespace Text

/-- A character all of whose bytes are ASCII is its only byte. -/
theorem map_utf8EncodeChar {c : Char} (h : ∀ b ∈ String.utf8EncodeChar c, b < 128) :
    (String.utf8EncodeChar c).map (fun b => Char.ofNat b.toNat) = [c] := by
  by_cases hc : c.val.toNat ≤ 127
  · rw [String.utf8EncodeChar, if_pos hc, List.map_singleton, UInt8.toNat_ofNat',
      Nat.mod_eq_of_lt (by omega)]
    exact congrArg (fun d => [d]) (Char.ofNat_toNat c)
  · -- The last of several bytes is a continuation byte.
    have hlast : UInt8.ofNat (c.val.toNat % 64 + 128) ∈ String.utf8EncodeChar c := by
      rw [String.utf8EncodeChar, if_neg hc]
      split
      · simp
      · split <;> simp
    have hlt : (c.val.toNat % 64 + 128) % 2 ^ 8 < 128 := h _ hlast
    omega

/-- The characters of an ASCII text are its bytes. -/
theorem toList_of_ascii {s : String} (h : ∀ b ∈ s.toByteArray.data.toList, b < 128) :
    s.toList = s.toByteArray.data.toList.map fun b => Char.ofNat b.toNat := by
  obtain ⟨cs, rfl⟩ : ∃ cs, s = String.ofList cs := ⟨s.toList, String.ofList_toList.symm⟩
  rw [String.toByteArray_ofList, List.utf8Encode, List.data_toByteArray, List.toList_toArray] at h ⊢
  rw [String.toList_ofList]
  induction cs with
  | nil => rfl
  | cons c cs ih =>
    rw [List.flatMap_cons] at h ⊢
    rw [List.forall_mem_append] at h
    rw [List.map_append, ← ih h.2, map_utf8EncodeChar h.1]
    rfl

end Text

/-- Whether the bytes of a source text are ASCII, and the reader at its first token has a
property. -/
def Reader.anyOfBytes (bytes : List UInt8) (P : Reader → Bool) : Bool :=
  let chars := bytes.map fun b => Char.ofNat b.toNat
  bytes.all (· < 128) &&
    match (Cursor.mk .start chars).items (chars.length + 1) with
    | .token t :: items => P { items, current := t, previous := t }
    | _ => false

/-- A property of the reader at the first token, found by reading the text. -/
theorem Reader.exists_of_ofSource (source : String) {P : Reader → Bool}
    (h : anyOfBytes source.toByteArray.data.toList P = true) :
    ∃ r, ofSource source = .ok r ∧ P r = true := by
  obtain ⟨hascii, hitems⟩ := Bool.and_eq_true_iff.mp h
  have hchars := Text.toList_of_ascii fun b hb =>
    of_decide_eq_true (List.all_eq_true.mp hascii b hb)
  rw [← hchars, String.length_toList] at hitems
  change (match scan source with | .token t :: items => _ | _ => _) = true at hitems
  split at hitems
  next t items hscan => exact ⟨_, by simp only [ofSource, hscan], hitems⟩
  next => cases hitems

namespace Program

variable {source : String}

/-- Whether the bytes of a source text are ASCII and make a program with a property. -/
def anyOfBytes (bytes : List UInt8) (P : Program → Bool) : Bool :=
  Reader.anyOfBytes bytes fun r =>
    match Grammar.functions r with
    | (.ok fs, r') =>
      r'.problems.isEmpty && P ⟨fs, r'.vars, r.current.span.merge r'.previous.span⟩
    | (.error _, _) => false

/-- A property of the program that a source text is, found by reading the text. -/
theorem exists_of_read {P : Program → Bool}
    (h : anyOfBytes source.toByteArray.data.toList P = true) :
    ∃ p, read source = .ok p ∧ P p = true := by
  obtain ⟨r, hr, hrun⟩ := Reader.exists_of_ofSource source h
  split at hrun
  next fs r' hfunctions =>
    rw [Bool.and_eq_true] at hrun
    exact ⟨_, by simp only [read, hr, hfunctions, hrun.1, ↓reduceIte], hrun.2⟩
  next => cases hrun

end Program

end LoopNest
