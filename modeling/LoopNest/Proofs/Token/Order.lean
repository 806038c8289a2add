import LoopNest.Token.Scan

/-!
# The order of the tokens

The items of a source text lie one behind the other, and its identifiers are names.

* `Position.Before`: a place is not behind another one.
* `Item.Proper`: an item is somewhere, and an identifier is a name.
* `scan_spec`: this is so for all items of a source, and they are in order.
-/

namespace LoopNest

/-! ## Places -/

/-- The position `q` is `p` or behind it. -/
structure Position.Before (p q : Position) : Prop where
  line_le : p.line ≤ q.line
  offset_le : p.offset ≤ q.offset

namespace Position.Before

variable {p q r : Position}

theorem refl (p : Position) : p.Before p := ⟨Nat.le_refl _, Nat.le_refl _⟩

theorem trans (hpq : p.Before q) (hqr : q.Before r) : p.Before r :=
  ⟨Nat.le_trans hpq.line_le hqr.line_le, Nat.le_trans hpq.offset_le hqr.offset_le⟩

theorem next (p : Position) (c : Char) : p.Before (p.next c) := by
  unfold Position.next
  split <;> exact ⟨by simp, by simp⟩

theorem past (p : Position) (cs : List Char) : p.Before (p.past cs) := by
  induction cs generalizing p with
  | nil => exact refl p
  | cons c cs ih => exact (next p c).trans (ih (p.next c))

end Position.Before

/-! ## Names -/

/-- The text has the form of an identifier and is no keyword. -/
structure Text.IsName (s : String) : Prop where
  form : ∃ c cs, s.toList = c :: cs ∧ Text.isIdentifierStart c = true ∧
    ∀ d ∈ cs, Text.isIdentifierPart d = true
  not_keyword : Keyword.ofText? s = none

instance : DecidablePred Text.IsName := fun s =>
  have hiff : (s.toList.head?.any Text.isIdentifierStart = true ∧
      s.toList.tail.all Text.isIdentifierPart = true) ∧ Keyword.ofText? s = none ↔
      Text.IsName s := by
    constructor
    · rintro ⟨⟨hstart, hparts⟩, hkeyword⟩
      obtain ⟨c, hc, hstart⟩ := (Option.any_eq_true _ _).mp hstart
      obtain ⟨cs, hchars⟩ := List.head?_eq_some_iff.mp hc
      rw [hchars] at hparts
      exact ⟨⟨c, cs, hchars, hstart, List.all_eq_true.mp hparts⟩, hkeyword⟩
    · rintro ⟨⟨c, cs, hchars, hstart, hparts⟩, hkeyword⟩
      rw [hchars]
      exact ⟨⟨hstart, List.all_eq_true.mpr hparts⟩, hkeyword⟩
  decidable_of_iff _ hiff

/-- A token is somewhere in a text, and if it is an identifier then it is a name. -/
structure Token.Proper (t : Token) : Prop where
  line_pos : 0 < t.span.start.line
  name : t.kind = .identifier → Text.IsName t.lexeme

/-- Whatever is said of the token, if the item is one. -/
def Item.Proper : Item → Prop
  | token t => t.Proper
  | fault _ => True

/-- Only a word is an identifier, and it starts with the character that it was found by. -/
theorem scanLexeme_identifier {c : Char} {cs : List Char}
    (h : (scanLexeme c cs).verdict = .ok .identifier) :
    Text.IsName (String.ofList (scanLexeme c cs).chars) := by
  unfold scanLexeme at h ⊢
  cases hsymbol : scanSymbol? c cs with
  | some l =>
    simp only [hsymbol] at h
    unfold scanSymbol? at hsymbol
    split at hsymbol
    · cases hsymbol
      cases h
    · obtain ⟨s, _, rfl⟩ := Option.map_eq_some_iff.mp hsymbol
      cases h
  | none =>
    simp only [hsymbol] at h ⊢
    split at h
    · exfalso
      unfold scanNumber scanExponent floatLexeme at h
      grind
    · next hdigit =>
      split at h
      · next hstart =>
        rw [if_neg hdigit, if_pos hstart]
        have hpart := Text.isIdentifierPart_of_start hstart
        have hkeyword : Keyword.ofText?
            (String.ofList ((c :: cs).takeWhile Text.isIdentifierPart)) = none := by
          simp only [scanWord, Token.Kind.ofWord] at h
          split at h
          · cases h
          · assumption
        refine ⟨⟨c, cs.takeWhile Text.isIdentifierPart, ?_, hstart, fun d hd => ?_⟩, hkeyword⟩
        · simp [scanWord, hpart]
        · exact List.all_eq_true.mp List.all_takeWhile d hd
      · cases h

/-! ## Items -/

/-- Where a gap started. -/
def Gap.origin (p : Position) : Gap → Position
  | blockComment start => start
  | _ => p

theorem skipGap_before (g : Gap) (p : Position) (cs : List Char) (hg : (g.origin p).Before p) :
    match skipGap g p cs with
    | .ok c => (g.origin p).Before c.position
    | .error f => (g.origin p).Before f.span.start ∧ f.span.start.Before f.span.stop := by
  have hpast (p : Position) (cs : List Char) {q : Position} (h : (p.past cs).Before q) :
      p.Before q := (Position.Before.past p cs).trans h
  have hnext (p : Position) (c : Char) {q : Position} (h : (p.next c).Before q) :
      p.Before q := (Position.Before.next p c).trans h
  fun_induction skipGap g p cs with
  | case1 start p => exact ⟨.refl _, hg⟩
  | case2 g p _ => exact hg
  | case3 p cs ih =>
    have h := ih (.refl _)
    split at h
    · exact hpast _ _ h
    · exact ⟨hpast _ _ h.1, h.2⟩
  | case4 p cs ih => exact ih (.past _ _)
  | case5 p c cs _ _ hblank ih =>
    have h := ih (.refl _)
    split at h
    · exact hnext _ _ h
    · exact ⟨hnext _ _ h.1, h.2⟩
  | case6 p c cs _ _ hblank => exact hg
  | case7 p c cs ih =>
    have h := ih (by split <;> exact .refl _)
    have horigin : (if c = '\n' then Gap.blank else .lineComment).origin (p.next c) = p.next c := by
      split <;> rfl
    rw [horigin] at h
    split at h
    · exact hnext _ _ h
    · exact ⟨hnext _ _ h.1, h.2⟩
  | case8 start p cs ih =>
    have h := ih (.refl _)
    have hstart := hg.trans (.past p ['*', '/'])
    split at h
    · exact hstart.trans h
    · exact ⟨hstart.trans h.1, h.2⟩
  | case9 start p c cs _ ih => exact ih (hg.trans (.next _ _))

/-- The next item lies behind the cursor, and the cursor behind it is not in front of it. -/
theorem Cursor.next_spec (c : Cursor) (hline : 0 < c.position.line) :
    c.position.Before c.next.1.span.start ∧ c.next.1.span.start.Before c.next.2.position ∧
      c.next.1.Proper := by
  have h := skipGap_before .blank c.position c.rest (.refl _)
  unfold next
  cases hgap : skipGap .blank c.position c.rest with
  | error f =>
    rw [hgap] at h
    exact ⟨h.1, h.2, trivial⟩
  | ok d =>
    obtain ⟨p, rest⟩ := d
    rw [hgap] at h
    have hp : 0 < p.line := Nat.lt_of_lt_of_le hline h.line_le
    cases rest with
    | nil => exact ⟨h, .refl _, hp, fun hkind => by cases hkind⟩
    | cons d cs =>
      dsimp only
      unfold Lexeme.item
      cases hverdict : (scanLexeme d cs).verdict with
      | error cause => exact ⟨h, .past _ _, trivial⟩
      | ok kind =>
        refine ⟨h, .past _ _, hp, fun hkind => ?_⟩
        have hkind : kind = .identifier := hkind
        exact scanLexeme_identifier (hkind ▸ hverdict)

theorem Cursor.items_spec (n : Nat) (c : Cursor) (hline : 0 < c.position.line) :
    (∀ i ∈ c.items n, i.Proper) ∧
      (c.position.offset :: (c.items n).map fun i => i.span.start.offset).Pairwise (· ≤ ·) := by
  induction n generalizing c with
  | zero => exact ⟨fun i hi => absurd hi List.not_mem_nil, by simp [items]⟩
  | succ n ih =>
    obtain ⟨hstart, hnext, hproper⟩ := c.next_spec hline
    have hline' : 0 < c.next.2.position.line := by
      have := hstart.line_le
      have := hnext.line_le
      omega
    obtain ⟨hitems, hsorted⟩ := ih c.next.2 hline'
    have hrest := List.pairwise_cons.mp hsorted
    have hle : c.position.offset ≤ c.next.1.span.start.offset := hstart.offset_le
    rw [items]
    dsimp only
    split
    · refine ⟨fun i hi => ?_, ?_⟩
      · rw [List.mem_singleton.mp hi]
        exact hproper
      · simpa using hle
    · refine ⟨fun i hi => ?_, ?_⟩
      · rcases List.mem_cons.mp hi with rfl | hi
        · exact hproper
        · exact hitems i hi
      · have hafter : ∀ o ∈ (c.next.2.items n).map fun i => i.span.start.offset,
            c.next.1.span.start.offset ≤ o := fun o ho =>
          Nat.le_trans hnext.offset_le (hrest.1 o ho)
        refine List.pairwise_cons.mpr ⟨fun o ho => ?_, List.pairwise_cons.mpr ⟨hafter, hrest.2⟩⟩
        rcases List.mem_cons.mp ho with rfl | ho
        · exact hle
        · exact Nat.le_trans hle (hafter o ho)

/-- The identifiers of a source are names, and its items lie one behind the other. -/
theorem scan_spec (source : String) :
    (∀ i ∈ scan source, i.Proper) ∧
      ((scan source).map fun i => i.span.start.offset).Pairwise (· ≤ ·) := by
  obtain ⟨hproper, hsorted⟩ :=
    Cursor.items_spec (source.length + 1) (.ofText source) (Nat.zero_lt_one)
  exact ⟨hproper, (List.pairwise_cons.mp hsorted).2⟩

end LoopNest
