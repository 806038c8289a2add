import LoopNest.Proofs.Token.Order

/-!
# Spelling words

A `Word` is a token without its place. A text spells a row of words if each of them is the longest
token at its place and only blanks stand between them.

* `Word.Fits`: the scanner finds the word at the front of a text, whatever stands behind the next
  character.
* `Text.Stops`, `Symbol.EndsAt`: what may stand behind a name or a number, and behind a symbol.
* `Spelled`: a text spells a row of words.
* `Spelled.scan`: its tokens are these words.
-/

namespace LoopNest

/-! ## Words -/

/-- A token without its place. -/
structure Word where
  kind : Token.Kind
  lexeme : String
deriving DecidableEq

def Token.word (t : Token) : Word := ⟨t.kind, t.lexeme⟩

namespace Word

def endOfFile : Word := ⟨.endOfFile, ""⟩

def symbol (s : Symbol) : Word := ⟨.symbol s, s.text⟩

def keyword (k : Keyword) : Word := ⟨.keyword k, k.text⟩

def name (n : String) : Word := ⟨.identifier, n⟩

/-- The characters `cs` are the word, and the scanner finds it where they stand before `rest`, or
before any other text with the same first character. -/
structure Fits (w : Word) (cs rest : List Char) : Prop where
  lexeme : w.lexeme = String.ofList cs
  kind_ne : w.kind ≠ .endOfFile
  no_newline : '\n' ∉ cs
  found : ∀ rest', rest'.head? = rest.head? → ∃ c cs', cs = c :: cs' ∧
    (∀ p, skipGap .blank p (cs ++ rest') = .ok ⟨p, cs ++ rest'⟩) ∧
    scanLexeme c (cs' ++ rest') = ⟨.ok w.kind, cs, rest'⟩

end Word

/-! ## Classes of characters -/

namespace Text

theorem exists_of_inRanges {ranges : List (Nat × Nat)} {n : Nat} (h : inRanges ranges n = true) :
    ∃ r ∈ ranges, r.1 ≤ n ∧ n ≤ r.2 := by
  induction ranges with
  | nil => cases h
  | cons r ranges ih =>
    obtain ⟨low, high⟩ := r
    simp only [inRanges] at h
    split at h
    · cases h
    · split at h
      · next hlow hhigh => exact ⟨(low, high), List.mem_cons_self, by omega, hhigh⟩
      · obtain ⟨r, hr, hn⟩ := ih h
        exact ⟨r, List.mem_cons_of_mem _ hr, hn⟩

theorem isIdentifierPart_of_isBlank {c : Char} (h : isBlank c = true) :
    isIdentifierPart c = false := by
  have hblanks : ∀ r ∈ blanks, ∀ n ∈ List.range' r.1 (r.2 + 1 - r.1),
      inRanges identifierStarts n = false ∧ inRanges identifierFollowers n = false ∧ n ≠ 95 := by
    decide +kernel
  obtain ⟨r, hr, hlow, hhigh⟩ := exists_of_inRanges h
  obtain ⟨hstart, hpart, hne⟩ := hblanks r hr c.toNat
    (List.mem_range'_1.mpr ⟨hlow, by omega⟩)
  have hunderscore : (c == '_') = false := by
    refine beq_false_of_ne fun hc => hne ?_
    rw [hc]
    rfl
  rw [isIdentifierPart, isIdentifierStart, hunderscore, hstart, hpart]
  rfl

/-- Characters of a class stand in front of one that is not in it. -/
theorem splitWhile_append {p : Char → Bool} {cs rest : List Char} (hcs : ∀ c ∈ cs, p c = true)
    (hrest : ∀ c ∈ rest.head?, p c = false) :
    (cs ++ rest).takeWhile p = cs ∧ (cs ++ rest).dropWhile p = rest := by
  rw [List.takeWhile_append_of_pos hcs, List.dropWhile_append_of_pos hcs]
  cases rest with
  | nil => simp
  | cons c rest => simp [hrest c rfl]

/-- The digits are ten characters. -/
theorem mem_digits {c : Char} (h : c.isDigit = true) :
    c ∈ ['0', '1', '2', '3', '4', '5', '6', '7', '8', '9'] := by
  have hrange : 48 ≤ c.toNat ∧ c.toNat ≤ 57 := by
    simpa [Char.isDigit, UInt32.le_iff_toNat_le] using h
  have hof : c = Char.ofNat c.toNat := (Char.ofNat_toNat c).symm
  obtain ⟨hlow, hhigh⟩ := hrange
  generalize c.toNat = n at hof hlow hhigh
  subst hof
  have hall : ∀ n ∈ List.range' 48 10,
      Char.ofNat n ∈ ['0', '1', '2', '3', '4', '5', '6', '7', '8', '9'] := by decide
  exact hall n (List.mem_range'_1.mpr ⟨hlow, by omega⟩)

/-- Nothing that could go on with a name or a number stands at the front. -/
def Stops (rest : List Char) : Prop :=
  ∀ c ∈ rest.head?, isIdentifierPart c = false ∧ c ≠ '.'

theorem isDigit_isPart {c : Char} (h : c.isDigit = true) :
    isIdentifierPart c = true ∧ isIdentifierStart c = false := by
  have hall : ['0', '1', '2', '3', '4', '5', '6', '7', '8', '9'].all
      (fun c => isIdentifierPart c && !isIdentifierStart c) = true := by
    decide +kernel
  simpa using List.all_eq_true.mp hall c (mem_digits h)

theorem Stops.isDigit {c : Char} {cs : List Char} (h : Stops (c :: cs)) : c.isDigit = false := by
  obtain ⟨hpart, _⟩ := h c rfl
  cases hdigit : c.isDigit with
  | false => rfl
  | true =>
    rw [(isDigit_isPart hdigit).1] at hpart
    cases hpart

theorem Stops.blank {c : Char} {cs : List Char} (h : isBlank c = true) : Stops (c :: cs) := by
  intro d hd
  obtain rfl : c = d := Option.some.inj hd
  refine ⟨isIdentifierPart_of_isBlank h, ?_⟩
  rintro rfl
  cases h

end Text

/-! ## Gaps -/

theorem skipGap_of_not_blank {p : Position} {c : Char} {cs : List Char}
    (hblank : Text.isBlank c = false) (hcomment : c = '/' → ∀ d ∈ cs.head?, d ≠ '/' ∧ d ≠ '*') :
    skipGap .blank p (c :: cs) = .ok ⟨p, c :: cs⟩ := by
  rw [skipGap]
  · simp [hblank]
  · rintro ds rfl rfl
    exact (hcomment rfl '/' rfl).1 rfl
  · rintro ds rfl rfl
    exact (hcomment rfl '*' rfl).2 rfl

theorem skipGap_of_blank {p : Position} {c : Char} {cs : List Char} (h : Text.isBlank c = true) :
    skipGap .blank p (c :: cs) = skipGap .blank (p.next c) cs := by
  have hslash : c ≠ '/' := by
    rintro rfl
    cases h
  rw [skipGap]
  · rw [if_pos h]
  · rintro _ rfl _
    exact hslash rfl
  · rintro _ rfl _
    exact hslash rfl

/-! ## Symbols -/

namespace Symbol

/-- The characters with which the symbol would be another one, or would start a comment. -/
def continuations (s : Symbol) : List Char :=
  ((all.filter fun t => t.chars.dropLast == s.chars).filterMap fun t => t.chars.getLast?) ++
    if s = slash then ['/', '*'] else []

/-- The symbol does not go on with the text `rest`. -/
def EndsAt (s : Symbol) (rest : List Char) : Prop := ∀ d ∈ rest.head?, d ∉ s.continuations

theorem ofChars?_append {s : Symbol} {d : Char} (h : d ∉ s.continuations) :
    ofChars? (s.chars ++ [d]) = none := by
  rw [ofChars?, List.find?_eq_none]
  intro t ht hchars
  have hchars : t.chars = s.chars ++ [d] := by simpa using hchars
  refine h (List.mem_append_left _ (List.mem_filterMap.mpr ⟨t, ?_, by simp [hchars]⟩))
  exact List.mem_filter.mpr ⟨ht, by simp [hchars]⟩

theorem chars_spec (s : Symbol) : ∀ c ∈ s.chars, Text.isBlank c = false ∧
    Text.isIdentifierPart c = false ∧ c.isDigit = false ∧ c ≠ '.' ∧ c ≠ '\n' := by
  have hall : ∀ s ∈ all, s.chars.all (fun c => !Text.isBlank c && !Text.isIdentifierPart c &&
      !c.isDigit && c != '.' && c != '\n') = true := by
    decide +kernel
  intro c hc
  simpa [and_assoc] using List.all_eq_true.mp (hall s (mem_all s)) c hc

/-- No symbol goes on with a name or a number. -/
theorem stops (s : Symbol) (rest : List Char) : Text.Stops (s.chars ++ rest) := by
  have hchars := s.chars_spec
  intro c hc
  have hmem : c ∈ s.chars := by
    cases hs : s.chars with
    | nil =>
      have hne : ∀ s ∈ all, s.chars ≠ [] := by decide
      exact absurd hs (hne s (mem_all s))
    | cons d ds =>
      rw [hs] at hc
      obtain rfl := Option.some.inj hc
      exact List.mem_cons_self
  exact ⟨(hchars c hmem).2.1, (hchars c hmem).2.2.2.1⟩

theorem endsAt_of_continuations {s : Symbol} (h : s.continuations = []) (rest : List Char) :
    s.EndsAt rest := by
  intro d _ hd
  rw [h] at hd
  cases hd

theorem endsAt_space (s : Symbol) (rest : List Char) : s.EndsAt (' ' :: rest) := by
  intro d hd
  obtain rfl : ' ' = d := Option.some.inj hd
  have hall : ∀ s ∈ all, ' ' ∉ s.continuations := by decide
  exact hall s (mem_all s)

/-- A symbol has one character, or two with which it goes on nowhere. -/
theorem chars_cases (s : Symbol) :
    (∃ c, s.chars = [c]) ∨ ∃ c d, s.chars = [c, d] ∧ s.continuations = [] := by
  cases s <;> first | exact .inl ⟨_, rfl⟩ | exact .inr ⟨_, _, rfl, rfl⟩

theorem eq_slash_or {s : Symbol} {cs : List Char} (h : s.chars = '/' :: cs) :
    s = slash ∨ s = slashEqual := by
  have hall : ∀ s ∈ all, s.chars.head? = some '/' → s = slash ∨ s = slashEqual := by decide
  exact hall s (mem_all s) (by rw [h]; rfl)

end Symbol

theorem scanSymbol?_of_symbol {s : Symbol} {rest : List Char} (h : s.EndsAt rest) :
    ∃ c cs, s.chars = c :: cs ∧
      scanSymbol? c (cs ++ rest) = some ⟨.ok (.symbol s), s.chars, rest⟩ := by
  rcases s.chars_cases with ⟨c, hc⟩ | ⟨c, d, hc, _⟩
  · refine ⟨c, [], hc, ?_⟩
    have hone : Symbol.ofChars? [c] = some s := hc ▸ s.ofChars?_chars
    have htwo : (rest.head?.bind fun d => Symbol.ofChars? [c, d]) = none := by
      rw [Option.bind_eq_none_iff]
      intro d hd
      have happend := Symbol.ofChars?_append (h d hd)
      rwa [hc] at happend
    rw [List.nil_append, scanSymbol?, htwo]
    simp [hone, hc]
  · refine ⟨c, [d], hc, ?_⟩
    have htwo : Symbol.ofChars? [c, d] = some s := hc ▸ s.ofChars?_chars
    simp [scanSymbol?, htwo]

/-- No symbol starts with a character of a name or a number. -/
theorem Symbol.ofChars?_of_part {c : Char} (h : Text.isIdentifierPart c = true) (ds : List Char) :
    ofChars? (c :: ds) = none := by
  rw [ofChars?, List.find?_eq_none]
  intro t _ hchars
  have hchars : t.chars = c :: ds := by simpa using hchars
  have hnot := (t.chars_spec c (hchars ▸ List.mem_cons_self)).2.1
  rw [h] at hnot
  cases hnot

theorem scanSymbol?_of_part {c : Char} {cs : List Char} (h : Text.isIdentifierPart c = true) :
    scanSymbol? c cs = none := by
  have htwo : (cs.head?.bind fun d => Symbol.ofChars? [c, d]) = none := by
    rw [Option.bind_eq_none_iff]
    exact fun d _ => Symbol.ofChars?_of_part h [d]
  rw [scanSymbol?, htwo, Symbol.ofChars?_of_part h]
  rfl

theorem scanLexeme_of_digit {c : Char} (h : c.isDigit = true) (cs : List Char) :
    scanLexeme c cs = scanNumber (c :: cs) := by
  rw [scanLexeme, scanSymbol?_of_part (Text.isDigit_isPart h).1]
  exact if_pos h

theorem scanLexeme_of_start {c : Char} (h : Text.isIdentifierStart c = true) (cs : List Char) :
    scanLexeme c cs = scanWord (c :: cs) := by
  have hdigit : ¬ c.isDigit = true := by
    intro hdigit
    rw [(Text.isDigit_isPart hdigit).2] at h
    cases h
  rw [scanLexeme, scanSymbol?_of_part (Text.isIdentifierPart_of_start h)]
  dsimp only
  rw [if_neg hdigit, if_pos h]

theorem skipGap_of_part {p : Position} {c : Char} {cs : List Char}
    (h : Text.isIdentifierPart c = true) : skipGap .blank p (c :: cs) = .ok ⟨p, c :: cs⟩ := by
  refine skipGap_of_not_blank ?_ ?_
  · cases hblank : Text.isBlank c with
    | false => rfl
    | true =>
      rw [Text.isIdentifierPart_of_isBlank hblank] at h
      cases h
  · rintro rfl
    have hnot := Symbol.ofChars?_of_part h []
    exact absurd hnot (by decide)

/-! ## Keywords -/

namespace Keyword

theorem mem_all (k : Keyword) : k ∈ all := by
  cases k with
  | type base => cases base <;> decide
  | bool value => cases value <;> decide
  | _ => decide

theorem ofText?_text (k : Keyword) : ofText? k.text = some k := by
  have hall : ∀ k ∈ all, ofText? k.text = some k := by
    decide +kernel
  exact hall k k.mem_all

/-- A keyword has the form of an identifier. -/
theorem form (k : Keyword) : ∃ c cs, k.text.toList = c :: cs ∧
    Text.isIdentifierStart c = true ∧ ∀ d ∈ cs, Text.isIdentifierPart d = true := by
  have hall : ∀ k ∈ all, k.text.toList.head?.any Text.isIdentifierStart = true ∧
      k.text.toList.tail.all Text.isIdentifierPart = true := by
    decide +kernel
  obtain ⟨hstart, hparts⟩ := hall k k.mem_all
  cases hchars : k.text.toList with
  | nil => simp [hchars] at hstart
  | cons c cs =>
    rw [hchars] at hstart hparts
    exact ⟨c, cs, rfl, hstart, List.all_eq_true.mp hparts⟩

end Keyword

namespace Word

theorem fits_symbol {s : Symbol} {rest : List Char} (h : s.EndsAt rest) :
    (symbol s).Fits s.chars rest := by
  refine ⟨rfl, by simp [symbol], fun hmem => (s.chars_spec _ hmem).2.2.2.2 rfl, ?_⟩
  intro rest' hhead
  have hends : s.EndsAt rest' := fun d hd => h d (hhead ▸ hd)
  obtain ⟨c, cs, hchars, hscan⟩ := scanSymbol?_of_symbol hends
  refine ⟨c, cs, hchars, fun p => ?_, ?_⟩
  · have hblank := (s.chars_spec c (hchars ▸ List.mem_cons_self)).1
    rw [hchars]
    refine skipGap_of_not_blank hblank fun hslash d hd => ?_
    subst hslash
    rcases Symbol.eq_slash_or hchars with rfl | rfl
    · obtain rfl : [] = cs := (List.cons.inj hchars).2
      have hnot := hends d hd
      constructor <;> rintro rfl <;> exact absurd hnot (by decide)
    · obtain rfl : ['='] = cs := (List.cons.inj hchars).2
      obtain rfl : '=' = d := Option.some.inj hd
      decide
  · rw [scanLexeme, hscan]
    rfl

/-! ## Names and keywords -/

/-- A text of the form of an identifier is a keyword or an identifier. -/
theorem fits_word {s : String} {rest : List Char} {c : Char} {cs : List Char}
    (hs : s.toList = c :: cs) (hstart : Text.isIdentifierStart c = true)
    (hparts : ∀ d ∈ cs, Text.isIdentifierPart d = true) (hstops : Text.Stops rest) :
    (⟨.ofWord s, s⟩ : Word).Fits s.toList rest := by
  have hpart := Text.isIdentifierPart_of_start hstart
  refine ⟨by simp, ?_, ?_, ?_⟩
  · unfold Token.Kind.ofWord
    split <;> simp
  · rw [hs]
    intro hmem
    have hnewline : Text.isIdentifierPart '\n' = true := by
      rcases List.mem_cons.mp hmem with rfl | hmem
      · exact hpart
      · exact hparts _ hmem
    rw [Text.isIdentifierPart_of_isBlank (by decide)] at hnewline
    cases hnewline
  · intro rest' hhead
    have hstops' : Text.Stops rest' := fun d hd => hstops d (hhead ▸ hd)
    refine ⟨c, cs, hs, fun p => ?_, ?_⟩
    · rw [hs]
      exact skipGap_of_part hpart
    · have hsplit := Text.splitWhile_append (List.forall_mem_cons.mpr ⟨hpart, hparts⟩)
        fun d hd => (hstops' d hd).1
      rw [scanLexeme_of_start hstart, scanWord, ← List.cons_append, hsplit.1, hsplit.2, ← hs,
        String.ofList_toList]

theorem fits_name {n : String} {rest : List Char} (hn : Text.IsName n)
    (hstops : Text.Stops rest) : (name n).Fits n.toList rest := by
  obtain ⟨c, cs, hchars, hstart, hparts⟩ := hn.form
  have hkind : Token.Kind.ofWord n = .identifier := by
    rw [Token.Kind.ofWord, hn.not_keyword]
  have hfits := fits_word hchars hstart hparts hstops
  rw [hkind] at hfits
  exact hfits

theorem fits_keyword (k : Keyword) {rest : List Char} (hstops : Text.Stops rest) :
    (keyword k).Fits k.text.toList rest := by
  obtain ⟨c, cs, hchars, hstart, hparts⟩ := k.form
  have hkind : Token.Kind.ofWord k.text = .keyword k := by
    rw [Token.Kind.ofWord, k.ofText?_text]
  have hfits := fits_word hchars hstart hparts hstops
  rw [hkind] at hfits
  exact hfits

end Word

/-- A word that fits is the next token. -/
theorem Word.Fits.next {w : Word} {cs rest : List Char} (hw : w.Fits cs rest) (p : Position) :
    Cursor.next ⟨p, cs ++ rest⟩ =
      (.token ⟨w.kind, ⟨p, p.past cs⟩, w.lexeme⟩, ⟨p.past cs, rest⟩) := by
  obtain ⟨c, cs, rfl, hgap, hscan⟩ := hw.found rest rfl
  have hgap := hgap p
  rw [List.cons_append] at hgap
  simp only [Cursor.next, List.cons_append, hgap, hscan, Lexeme.item, hw.lexeme]

/-! ## Rows of words -/

/-- The text spells these words, one behind the other. -/
inductive Spelled : List Char → List Word → Prop
  | done : Spelled [] []
  | gap {c : Char} {cs : List Char} {ws : List Word} (hc : Text.isBlank c = true)
      (h : Spelled cs ws) : Spelled (c :: cs) ws
  | word {w : Word} {cs rest : List Char} {ws : List Word} (hw : w.Fits cs rest)
      (h : Spelled rest ws) : Spelled (cs ++ rest) (w :: ws)

namespace Spelled

variable {cs : List Char} {ws : List Word}

theorem length_le (h : Spelled cs ws) : ws.length ≤ cs.length := by
  induction h with
  | done => exact Nat.le_refl _
  | gap _ _ ih => exact Nat.le_succ_of_le ih
  | @word w cs rest ws hw _ ih =>
    obtain ⟨c, cs, rfl, _⟩ := hw.found rest rfl
    simp only [List.length_append, List.length_cons]
    omega

theorem space (h : Spelled cs ws) : Spelled (' ' :: cs) ws := .gap (by decide) h

theorem symbol {s : Symbol} (hs : s.EndsAt cs) (h : Spelled cs ws) :
    Spelled (s.chars ++ cs) (.symbol s :: ws) := .word (Word.fits_symbol hs) h

/-- A symbol that goes on nowhere. -/
theorem closed {s : Symbol} (hs : s.continuations = []) (h : Spelled cs ws) :
    Spelled (s.chars ++ cs) (.symbol s :: ws) := symbol (Symbol.endsAt_of_continuations hs cs) h

theorem name {n : String} (hn : Text.IsName n) (hcs : Text.Stops cs) (h : Spelled cs ws) :
    Spelled (n.toList ++ cs) (.name n :: ws) := .word (Word.fits_name hn hcs) h

theorem keyword (k : Keyword) (hcs : Text.Stops cs) (h : Spelled cs ws) :
    Spelled (k.text.toList ++ cs) (.keyword k :: ws) := .word (Word.fits_keyword k hcs) h

end Spelled

/-- The text spells the words wherever something stands behind it that could not belong to a name
or a number. -/
def Spells (cs : List Char) (ws : List Word) : Prop :=
  ∀ ⦃rest : List Char⦄ ⦃ws' : List Word⦄, Text.Stops rest → Spelled rest ws' →
    Spelled (cs ++ rest) (ws ++ ws')

/-- Rows of words with commas between them. -/
def Word.separated : List (List Word) → List Word
  | [] => []
  | ws :: wss => ws ++ wss.flatMap (Word.symbol .comma :: ·)

theorem intercalate_cons {α : Type} (sep xs : List α) (xss : List (List α)) :
    List.intercalate sep (xs :: xss) = xs ++ xss.flatMap (sep ++ ·) := by
  induction xss generalizing xs with
  | nil => simp
  | cons ys xss ih =>
    rw [List.intercalate_cons_cons, ih, List.flatMap_cons, List.append_assoc, List.append_assoc]

/-- Texts with commas between them. -/
theorem Spells.separated {α : Type} (text : α → List Char) {words : α → List Word} {items : List α}
    (h : ∀ a ∈ items, Spells (text a) (words a)) :
    Spells (", ".toList.intercalate (items.map text)) (Word.separated (items.map words)) := by
  intro rest ws hrest hspelled
  have hbehind {items : List α} (h : ∀ a ∈ items, Spells (text a) (words a)) :
      Text.Stops ((items.map text).flatMap (", ".toList ++ ·) ++ rest) ∧
      Spelled ((items.map text).flatMap (", ".toList ++ ·) ++ rest)
        ((items.map words).flatMap (Word.symbol .comma :: ·) ++ ws) := by
    induction items with
    | nil => exact ⟨hrest, hspelled⟩
    | cons a items ih =>
      obtain ⟨ha, hitems⟩ := List.forall_mem_cons.mp h
      obtain ⟨hstops, hrest⟩ := ih hitems
      simp only [List.map_cons, List.flatMap_cons, List.append_assoc, List.cons_append]
      exact ⟨Symbol.comma.stops _, Spelled.closed (s := .comma) rfl (.space (ha hstops hrest))⟩
  cases items with
  | nil => exact hspelled
  | cons a items =>
    obtain ⟨ha, hitems⟩ := List.forall_mem_cons.mp h
    obtain ⟨hstops, hrest⟩ := hbehind hitems
    rw [List.map_cons, List.map_cons, intercalate_cons, Word.separated, List.append_assoc,
      List.append_assoc]
    exact ha hstops hrest

namespace Spelled

variable {cs : List Char} {ws : List Word}

/-- The cursor takes the words one after the other, and then comes to the end of the file. -/
theorem items (h : Spelled cs ws) {n : Nat} (hn : ws.length < n) (p : Position) :
    ∃ ts : List Token, Cursor.items n ⟨p, cs⟩ = ts.map .token ∧
      ts.map Token.word = ws ++ [.endOfFile] := by
  induction h generalizing n p with
  | done =>
    obtain ⟨n, rfl⟩ := Nat.exists_eq_succ_of_ne_zero (Nat.ne_of_gt hn)
    exact ⟨[⟨.endOfFile, ⟨p, p⟩, ""⟩], rfl, rfl⟩
  | @gap c cs ws hc _ ih =>
    obtain ⟨n, rfl⟩ := Nat.exists_eq_succ_of_ne_zero (by omega : n ≠ 0)
    have hnext : Cursor.next ⟨p, c :: cs⟩ = Cursor.next ⟨p.next c, cs⟩ := by
      simp only [Cursor.next, skipGap_of_blank hc]
    have hitems : Cursor.items (n + 1) ⟨p, c :: cs⟩ = Cursor.items (n + 1) ⟨p.next c, cs⟩ := by
      simp only [Cursor.items, hnext]
    rw [hitems]
    exact ih hn (p.next c)
  | @word w cs rest ws hw _ ih =>
    obtain ⟨n, rfl⟩ := Nat.exists_eq_succ_of_ne_zero (by omega : n ≠ 0)
    have hlength : ws.length < n := by
      rw [List.length_cons] at hn
      omega
    obtain ⟨ts, hitems, hwords⟩ := ih hlength (p.past cs)
    have hend : (Item.token ⟨w.kind, ⟨p, p.past cs⟩, w.lexeme⟩).isEnd = false := by
      simpa [Item.isEnd, Token.isEnd] using hw.kind_ne
    refine ⟨⟨w.kind, ⟨p, p.past cs⟩, w.lexeme⟩ :: ts, ?_, ?_⟩
    · rw [Cursor.items, hw.next p]
      simp only [hend, hitems, List.map_cons]
      rfl
    · rw [List.map_cons, hwords]
      rfl

/-- The tokens of a text that spells a row of words are these words. -/
theorem scan {s : String} (h : Spelled s.toList ws) :
    ∃ ts : List Token, LoopNest.scan s = ts.map .token ∧
      ts.map Token.word = ws ++ [.endOfFile] := by
  refine h.items ?_ Position.start
  have hle := h.length_le
  rw [String.length_toList] at hle
  omega

end Spelled

end LoopNest
