import LoopNest.Proofs.Token.Order

/-!
# The end of the tokens

The items of a source text end with the end of the file: every other one takes a character, so that
the text is used up before the items are.

* `scanLexeme_append`: no character is lost and none is made up.
* `scan_closed`: the last item is the end of the file.
* `scan_of_tokenize`, `tokenize_of_scan`: a source without faults has only tokens.
* `scan_strict`: a token is in front of all items behind it.
-/

namespace LoopNest

/-! ## Characters of lexemes -/

theorem splitFraction_append (cs : List Char) :
    (splitFraction cs).1 ++ (splitFraction cs).2 = cs := by
  unfold splitFraction
  split
  · split
    · exact congrArg (fun ds => '.' :: _ :: ds) (Text.splitDigits_append _)
    · rfl
  · rfl

theorem splitSuffix_append (cs : List Char) : (splitSuffix cs).1 ++ (splitSuffix cs).2 = cs := by
  unfold splitSuffix
  split <;> rfl

theorem Text.splitSign_append (cs : List Char) : (splitSign cs).1 ++ (splitSign cs).2 = cs := by
  unfold splitSign
  split <;> rfl

namespace Lexeme

/-- The lexeme and the text behind it are the text `cs`. -/
def Splits (l : Lexeme) (cs : List Char) : Prop := l.chars ++ l.rest = cs

end Lexeme

theorem floatLexeme_splits (cs rest : List Char) : (floatLexeme cs rest).Splits (cs ++ rest) := by
  simp only [Lexeme.Splits, floatLexeme, List.append_assoc, splitSuffix_append]

theorem scanExponent_splits (cs rest : List Char) : (scanExponent cs rest).Splits (cs ++ rest) := by
  unfold scanExponent
  have hsign := Text.splitSign_append rest
  have hdigits := Text.splitDigits_append (Text.splitSign rest).2
  dsimp only
  split
  · next hempty =>
    rw [List.isEmpty_iff.mp hempty, List.nil_append] at hdigits
    simp only [Lexeme.Splits, hdigits, List.append_assoc, hsign]
  · have hparts : cs ++ rest = cs ++ (Text.splitSign rest).1 ++
        (Text.splitDigits (Text.splitSign rest).2).1 ++
        (Text.splitDigits (Text.splitSign rest).2).2 := by
      rw [List.append_assoc, hdigits, List.append_assoc, hsign]
    rw [hparts]
    exact floatLexeme_splits _ _

theorem scanNumber_splits (cs : List Char) : (scanNumber cs).Splits cs := by
  have hparts : (Text.splitDigits cs).1 ++ (splitFraction (Text.splitDigits cs).2).1 ++
      (splitFraction (Text.splitDigits cs).2).2 = cs := by
    rw [List.append_assoc, splitFraction_append, Text.splitDigits_append]
  unfold scanNumber
  dsimp only
  generalize splitFraction (Text.splitDigits cs).2 = parts at hparts ⊢
  obtain ⟨fraction, rest⟩ := parts
  generalize (Text.splitDigits cs).1 = whole at hparts ⊢
  subst hparts
  dsimp only
  split
  · next rest =>
    rw [List.append_cons (whole ++ fraction) 'e' rest]
    exact scanExponent_splits _ rest
  · next rest =>
    rw [List.append_cons (whole ++ fraction) 'E' rest]
    exact scanExponent_splits _ rest
  · split
    · next hempty => simp [Lexeme.Splits, List.isEmpty_iff.mp hempty]
    · exact floatLexeme_splits (whole ++ fraction) _

theorem Symbol.chars_of_ofChars? {cs : List Char} {s : Symbol} (h : ofChars? cs = some s) :
    s.chars = cs := by
  have hfound := List.find?_some h
  simpa using hfound

/-- The characters of a lexeme are those at the front of the text. -/
theorem scanLexeme_append (c : Char) (cs : List Char) : (scanLexeme c cs).Splits (c :: cs) := by
  unfold scanLexeme
  cases hsymbol : scanSymbol? c cs with
  | some l =>
    dsimp only
    unfold scanSymbol? at hsymbol
    split at hsymbol
    · next s hs =>
      obtain rfl := Option.some.inj hsymbol
      obtain ⟨d, hd, hs⟩ := Option.bind_eq_some_iff.mp hs
      rw [Lexeme.Splits, Symbol.chars_of_ofChars? hs]
      cases cs with
      | nil => cases hd
      | cons e cs =>
        obtain rfl := Option.some.inj hd
        rfl
    · obtain ⟨s, _, rfl⟩ := Option.map_eq_some_iff.mp hsymbol
      rfl
  | none =>
    dsimp only
    split
    · exact scanNumber_splits (c :: cs)
    · split
      · exact List.takeWhile_append_dropWhile
      · rfl

theorem splitDigits_ne_nil {c : Char} (h : c.isDigit = true) (cs : List Char) :
    (Text.splitDigits (c :: cs)).1 ≠ [] := by
  simp [Text.splitDigits, h]

theorem scanNumber_chars_ne {c : Char} (h : c.isDigit = true) (cs : List Char) :
    (scanNumber (c :: cs)).chars ≠ [] := by
  have hne := splitDigits_ne_nil h cs
  unfold scanNumber scanExponent floatLexeme
  dsimp only
  split
  · split <;> simp [hne]
  · split <;> simp [hne]
  · split <;> simp [hne]

/-- A lexeme has a character. -/
theorem scanLexeme_chars_ne (c : Char) (cs : List Char) : (scanLexeme c cs).chars ≠ [] := by
  unfold scanLexeme
  cases hsymbol : scanSymbol? c cs with
  | some l =>
    dsimp only
    unfold scanSymbol? at hsymbol
    split at hsymbol
    · next s _ =>
      obtain rfl := Option.some.inj hsymbol
      cases s <;> simp [Symbol.chars]
    · obtain ⟨s, _, rfl⟩ := Option.map_eq_some_iff.mp hsymbol
      exact List.cons_ne_nil c []
  | none =>
    dsimp only
    split
    · next hdigit => exact scanNumber_chars_ne hdigit cs
    · split
      · next hstart =>
        have hpart := Text.isIdentifierPart_of_start hstart
        simp [scanWord, hpart]
      · exact List.cons_ne_nil c []

theorem scanLexeme_rest_lt (c : Char) (cs : List Char) :
    (scanLexeme c cs).rest.length < (c :: cs).length := by
  have happend := congrArg List.length (scanLexeme_append c cs)
  have hpos := List.length_pos_iff.mpr (scanLexeme_chars_ne c cs)
  rw [List.length_append] at happend
  omega

/-! ## Items -/

theorem skipGap_rest_le (g : Gap) (p : Position) (cs : List Char) :
    ∀ c ∈ (skipGap g p cs).toOption, c.rest.length ≤ cs.length := by
  fun_induction skipGap g p cs with
  | case1 => simp [Except.toOption]
  | case2 => simp [Except.toOption]
  | case6 => simp [Except.toOption]
  | _ =>
    intro c hc
    rename_i ih
    have hle := ih c hc
    simp only [List.length_cons]
    omega

/-- Every item but the last one leaves less of the text. -/
theorem Cursor.next_rest_lt (c : Cursor) (h : c.next.1.isEnd = false) :
    c.next.2.rest.length < c.rest.length := by
  have hle := skipGap_rest_le .blank c.position c.rest
  unfold next at h ⊢
  cases hgap : skipGap .blank c.position c.rest with
  | error f =>
    cases hrest : c.rest with
    | nil =>
      rw [hrest, skipGap] at hgap
      · cases hgap
      · exact fun _ hg => by cases hg
    | cons d cs => exact Nat.zero_lt_succ _
  | ok d =>
    obtain ⟨p, rest⟩ := d
    rw [hgap] at h hle
    have hle : rest.length ≤ c.rest.length := hle ⟨p, rest⟩ rfl
    cases rest with
    | nil => cases h
    | cons d cs => exact Nat.lt_of_lt_of_le (scanLexeme_rest_lt d cs) hle

theorem Cursor.items_closed {n : Nat} {c : Cursor} (h : c.rest.length < n) :
    ∃ items t, c.items n = items ++ [.token t] ∧ t.kind = .endOfFile := by
  induction n generalizing c with
  | zero => exact absurd h (Nat.not_lt_zero _)
  | succ n ih =>
    rw [items]
    dsimp only
    split
    · next hend =>
      cases hnext : c.next.1 with
      | token t =>
        rw [hnext] at hend
        exact ⟨[], t, rfl, eq_of_beq hend⟩
      | fault f =>
        rw [hnext] at hend
        cases hend
    · next hend =>
      have hlt := c.next_rest_lt (by simpa using hend)
      obtain ⟨items, t, hitems, ht⟩ := ih (c := c.next.2) (by omega)
      exact ⟨c.next.1 :: items, t, by rw [hitems, List.cons_append], ht⟩

/-- The last item of a source is the end of the file. -/
theorem scan_closed (source : String) :
    ∃ items t, scan source = items ++ [.token t] ∧ t.kind = .endOfFile :=
  Cursor.items_closed (Nat.lt_succ_of_le (Nat.le_of_eq String.length_toList))

/-- Behind the end of the file there is nothing. -/
theorem Cursor.nothing_behind_end {n : Nat} {c : Cursor} {before behind : List Item} {i : Item}
    (h : c.items n = before ++ i :: behind) (hi : i.isEnd = true) : behind = [] := by
  induction n generalizing c before with
  | zero => simp [items] at h
  | succ n ih =>
    rw [items] at h
    dsimp only at h
    split at h
    · cases before with
      | nil => exact (List.cons.inj h).2.symm
      | cons _ before => simp at h
    · next hend =>
      cases before with
      | nil =>
        rw [(List.cons.inj h).1] at hend
        exact absurd hi hend
      | cons _ before => exact ih (List.cons.inj h).2

theorem scan_nothing_behind_end {source : String} {before behind : List Item} {i : Item}
    (h : scan source = before ++ i :: behind) (hi : i.isEnd = true) : behind = [] :=
  Cursor.nothing_behind_end h hi

/-! ## Tokens without faults -/

theorem scan_of_tokenize {source : String} {ts : List Token} (h : tokenize source = .ok ts) :
    scan source = ts.map .token := by
  unfold tokenize at h
  generalize scan source = items at h ⊢
  induction items generalizing ts with
  | nil =>
    obtain rfl : [] = ts := Except.ok.inj h
    rfl
  | cons i items ih =>
    cases i with
    | fault f => cases h
    | token t =>
      rw [tokensOf] at h
      cases hrest : tokensOf items with
      | error f =>
        rw [hrest] at h
        cases h
      | ok us =>
        rw [hrest] at h
        obtain rfl : t :: us = ts := Except.ok.inj h
        rw [ih hrest, List.map_cons]

theorem tokensOf_map_token (ts : List Token) : tokensOf (ts.map .token) = .ok ts := by
  induction ts with
  | nil => rfl
  | cons t ts ih => rw [List.map_cons, tokensOf, ih]; rfl

theorem tokenize_of_scan {source : String} {ts : List Token} (h : scan source = ts.map .token) :
    tokenize source = .ok ts := by
  rw [tokenize, h, tokensOf_map_token]

/-! ## Places of tokens -/

theorem Position.offset_lt_past (p : Position) {cs : List Char} (h : cs ≠ []) :
    p.offset < (p.past cs).offset := by
  obtain ⟨c, cs, rfl⟩ := List.exists_cons_of_ne_nil h
  have hnext : p.offset < (p.next c).offset := by
    unfold Position.next
    split <;> exact Nat.lt_add_of_pos_right (Char.utf8Size_pos c)
  exact Nat.lt_of_lt_of_le hnext (Position.Before.past _ cs).offset_le

/-- A token takes a stretch of the text, unless it is the end of the file. -/
theorem Cursor.next_offset_lt (c : Cursor) {t : Token} (ht : c.next.1 = .token t)
    (hend : c.next.1.isEnd = false) : t.span.start.offset < c.next.2.position.offset := by
  unfold next at ht hend ⊢
  cases hgap : skipGap .blank c.position c.rest with
  | error f =>
    rw [hgap] at ht
    cases ht
  | ok d =>
    obtain ⟨p, rest⟩ := d
    rw [hgap] at ht hend
    cases rest with
    | nil => cases hend
    | cons d cs =>
      dsimp only at ht ⊢
      have hlt := p.offset_lt_past (scanLexeme_chars_ne d cs)
      unfold Lexeme.item at ht
      split at ht
      · obtain rfl := Item.token.inj ht
        exact hlt
      · cases ht

theorem Cursor.items_strict (n : Nat) (c : Cursor) (hline : 0 < c.position.line) :
    (c.items n).Pairwise fun i j => ∀ t, i = .token t →
      t.span.start.offset < j.span.start.offset := by
  induction n generalizing c with
  | zero => exact .nil
  | succ n ih =>
    obtain ⟨hstart, hnext, _⟩ := c.next_spec hline
    have hline' : 0 < c.next.2.position.line :=
      Nat.lt_of_lt_of_le hline (Nat.le_trans hstart.line_le hnext.line_le)
    have hbehind := (List.pairwise_cons.mp (items_spec n c.next.2 hline').2).1
    rw [items]
    dsimp only
    split
    · exact List.pairwise_singleton _ _
    · next hend =>
      refine List.pairwise_cons.mpr ⟨fun j hj t ht => ?_, ih c.next.2 hline'⟩
      have hlt := c.next_offset_lt ht (by simpa using hend)
      exact Nat.lt_of_lt_of_le hlt (hbehind _ (List.mem_map_of_mem hj))

/-- A token starts in front of all items behind it. -/
theorem scan_strict (source : String) :
    (scan source).Pairwise fun i j => ∀ t, i = .token t →
      t.span.start.offset < j.span.start.offset :=
  Cursor.items_strict _ _ Nat.zero_lt_one

end LoopNest
