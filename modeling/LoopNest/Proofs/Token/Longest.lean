import LoopNest.Proofs.Token.Ending
import LoopNest.Proofs.Token.Numbers

/-!
# The longest match

What the scanner takes at a place is the longest text of the token language there, or nothing if
the text has one of three defects.

* `Token.IsLexeme`: the token language, with the kinds of its texts.
* `Token.IsLexeme.kind_eq`: a text has one kind.
* `Text.IsDefective`: the texts that are refused.
* `scanLexeme_sound`: what is taken is in the language, and what is refused is defective.
* `Token.IsLexeme.isPrefix`: a text of the language at the front of another one is taken, perhaps
  with more behind it.
* `Cursor.next_longest`: so the scanner takes the longest one, and refuses defective texts alone.
-/

namespace LoopNest

/-! ## The token language -/

namespace Text

/-- The characters in front of an exponent. -/
def IsMark (c : Char) : Prop := c = 'e' ∨ c = 'E'

/-- Nothing, or the suffix of single precision. -/
def IsSuffix (cs : List Char) : Prop := cs = [] ∨ cs = ['f'] ∨ cs = ['F']

/-- Digits, with a fraction or without. -/
def IsMantissa (cs : List Char) : Prop :=
  ∃ d ds fraction, cs = d :: ds ++ fraction ∧ IsDigits (d :: ds) ∧ IsFraction fraction

/-- The digits of an exponent stand at the front of the text, perhaps behind a sign. -/
def StartsExponent (cs : List Char) : Prop :=
  ∃ sign d ds, cs = sign ++ d :: ds ∧ IsSign sign ∧ d.isDigit = true

/-- Digits, or a float: with a fraction, with an exponent, or with both. -/
inductive IsNumber : Token.Kind → List Char → Prop
  | integer {d : Char} {ds : List Char} (digits : IsDigits (d :: ds)) : IsNumber .integer (d :: ds)
  | decimal {d e : Char} {ds es suffix : List Char} (whole : IsDigits (d :: ds))
      (fraction : IsDigits (e :: es)) (hsuffix : IsSuffix suffix) :
      IsNumber .float (d :: ds ++ '.' :: (e :: es ++ suffix))
  | scientific {mantissa sign ds suffix : List Char} {mark d : Char} (number : IsMantissa mantissa)
      (hmark : IsMark mark) (hsign : IsSign sign) (digits : IsDigits (d :: ds))
      (hsuffix : IsSuffix suffix) :
      IsNumber .float (mantissa ++ mark :: (sign ++ (d :: ds ++ suffix)))

end Text

open Text

/-- The texts that are tokens of a kind. -/
inductive Token.IsLexeme : Token.Kind → List Char → Prop
  | symbol (s : Symbol) : IsLexeme (.symbol s) s.chars
  | number {k : Token.Kind} {cs : List Char} (h : IsNumber k cs) : IsLexeme k cs
  | keyword (k : Keyword) : IsLexeme (.keyword k) k.text.toList
  | name {s : String} (h : IsName s) : IsLexeme .identifier s.toList

/-- The texts with no token at the front. The mark of an exponent stands behind digits or behind a
fraction: what has an exponent or a suffix already is a number whatever stands behind it. -/
inductive Text.IsDefective : List Char → Prop
  | halfOperator {c : Char} {cs : List Char} (hc : c = '&' ∨ c = '|') (h : cs.head? ≠ some c) :
      IsDefective (c :: cs)
  | strayChar {c : Char} {cs : List Char}
      (h : ∀ k lexeme, Token.IsLexeme k lexeme → lexeme.head? ≠ some c) : IsDefective (c :: cs)
  | bareExponent {mantissa rest : List Char} {mark : Char} (number : IsMantissa mantissa)
      (hmark : IsMark mark) (h : ¬ StartsExponent rest) : IsDefective (mantissa ++ mark :: rest)

/-! ## Kinds -/

namespace Text

variable {k : Token.Kind} {cs : List Char}

theorem IsMark.isDigit {c : Char} (h : IsMark c) : c.isDigit = false := by
  rcases h with rfl | rfl <;> rfl

theorem IsMantissa.exists_digit (h : IsMantissa cs) : ∃ d ds, cs = d :: ds ∧ d.isDigit = true := by
  obtain ⟨d, ds, fraction, rfl, whole, -⟩ := h
  exact ⟨d, ds ++ fraction, rfl, whole d List.mem_cons_self⟩

theorem IsNumber.exists_digit (h : IsNumber k cs) : ∃ d ds, cs = d :: ds ∧ d.isDigit = true := by
  cases h with
  | integer digits => exact ⟨_, _, rfl, digits _ List.mem_cons_self⟩
  | decimal whole => exact ⟨_, _, rfl, whole _ List.mem_cons_self⟩
  | scientific number =>
    obtain ⟨d, ds, rfl, hd⟩ := number.exists_digit
    exact ⟨d, _, rfl, hd⟩

/-- A whole number has nothing but digits, and a float has a point or a mark. -/
theorem IsNumber.kind_eq (h : IsNumber k cs) :
    k = if cs.all Char.isDigit then .integer else .float := by
  have hfloat {c : Char} (hc : c ∈ cs) (hdigit : c.isDigit = false) :
      (Token.Kind.float : Token.Kind) = if cs.all Char.isDigit then .integer else .float := by
    rw [if_neg]
    intro hall
    rw [List.all_eq_true.mp hall c hc] at hdigit
    cases hdigit
  cases h with
  | integer digits => rw [if_pos (List.all_eq_true.mpr digits)]
  | decimal whole => exact hfloat (List.mem_append_right _ List.mem_cons_self) rfl
  | scientific number hmark =>
    exact hfloat (List.mem_append_right _ List.mem_cons_self) hmark.isDigit

end Text

namespace Token.IsLexeme

variable {k k' : Token.Kind} {lexeme : List Char}

/-- The three classes of tokens, which the first character tells apart. -/
theorem cases_first (h : IsLexeme k lexeme) : ∃ c cs, lexeme = c :: cs ∧
    ((∃ s : Symbol, k = .symbol s ∧ s.chars = c :: cs ∧ isIdentifierPart c = false) ∨
      c.isDigit = true ∧ IsNumber k (c :: cs) ∨
      isIdentifierStart c = true ∧ (∀ d ∈ cs, isIdentifierPart d = true) ∧
        k = .ofWord (String.ofList (c :: cs))) := by
  cases h with
  | symbol s =>
    rcases s.chars_cases with ⟨c, hc⟩ | ⟨c, d, hc, -⟩
    · exact ⟨c, [], hc, .inl ⟨s, rfl, hc, (s.chars_spec c (hc ▸ List.mem_cons_self)).2.1⟩⟩
    · exact ⟨c, [d], hc, .inl ⟨s, rfl, hc, (s.chars_spec c (hc ▸ List.mem_cons_self)).2.1⟩⟩
  | number hnumber =>
    obtain ⟨d, ds, rfl, hd⟩ := hnumber.exists_digit
    exact ⟨d, ds, rfl, .inr (.inl ⟨hd, hnumber⟩)⟩
  | keyword word =>
    obtain ⟨c, cs, hchars, hstart, hparts⟩ := word.form
    refine ⟨c, cs, hchars, .inr (.inr ⟨hstart, hparts, ?_⟩)⟩
    rw [← hchars, String.ofList_toList, Token.Kind.ofWord, word.ofText?_text]
  | @name s hname =>
    obtain ⟨c, cs, hchars, hstart, hparts⟩ := hname.form
    refine ⟨c, cs, hchars, .inr (.inr ⟨hstart, hparts, ?_⟩)⟩
    rw [← hchars, String.ofList_toList, Token.Kind.ofWord, hname.not_keyword]

theorem word {c : Char} {cs : List Char} (hstart : isIdentifierStart c = true)
    (hparts : ∀ d ∈ cs, isIdentifierPart d = true) :
    IsLexeme (.ofWord (String.ofList (c :: cs))) (c :: cs) := by
  have hchars : (String.ofList (c :: cs)).toList = c :: cs := String.toList_ofList
  unfold Token.Kind.ofWord
  cases hkeyword : Keyword.ofText? (String.ofList (c :: cs)) with
  | none =>
    have hname : IsName (String.ofList (c :: cs)) := ⟨⟨c, cs, hchars, hstart, hparts⟩, hkeyword⟩
    have hlexeme := name hname
    rwa [hchars] at hlexeme
  | some word =>
    have htext : word.text = String.ofList (c :: cs) := by
      have hfound := List.find?_some hkeyword
      simpa using hfound
    have hlexeme := keyword word
    rwa [htext, hchars] at hlexeme

/-- A text is a token of one kind only. -/
theorem kind_eq (h : IsLexeme k lexeme) (h' : IsLexeme k' lexeme) : k = k' := by
  obtain ⟨c, cs, rfl, hclass⟩ := h.cases_first
  obtain ⟨c', cs', heq, hclass'⟩ := h'.cases_first
  obtain ⟨rfl, rfl⟩ := List.cons.inj heq
  have hdigit (hd : c.isDigit = true) := isDigit_isPart hd
  have hstart (hs : isIdentifierStart c = true) := isIdentifierPart_of_start hs
  rcases hclass with ⟨s, rfl, hs, hpart⟩ | ⟨hd, hnumber⟩ | ⟨hs, -, rfl⟩ <;>
    rcases hclass' with ⟨s', rfl, hs', hpart'⟩ | ⟨hd', hnumber'⟩ | ⟨hs', -, rfl⟩
  · have hof := s.ofChars?_chars
    rw [hs, ← hs', s'.ofChars?_chars] at hof
    rw [Option.some.inj hof]
  · rw [(hdigit hd').1] at hpart
    cases hpart
  · rw [hstart hs'] at hpart
    cases hpart
  · rw [(hdigit hd).1] at hpart'
    cases hpart'
  · rw [hnumber.kind_eq, hnumber'.kind_eq]
  · rw [(hdigit hd).2] at hs'
    cases hs'
  · rw [hstart hs] at hpart'
    cases hpart'
  · rw [(hdigit hd').2] at hs
    cases hs
  · rfl

end Token.IsLexeme

/-! ## Numbers -/

section

variable {whole fraction rest rest' : List Char}

theorem exists_splitDigits {d : Char} (hd : d.isDigit = true) (cs : List Char) :
    ∃ ds rest, splitDigits (d :: cs) = (d :: ds, rest) ∧ cs = ds ++ rest ∧ IsDigits (d :: ds) := by
  refine ⟨cs.takeWhile Char.isDigit, cs.dropWhile Char.isDigit, ?_, ?_, ?_⟩
  · rw [splitDigits, List.takeWhile_cons_of_pos hd, List.dropWhile_cons_of_pos hd]
  · exact List.takeWhile_append_dropWhile.symm
  · exact List.forall_mem_cons.mpr ⟨hd, fun c hc => List.all_eq_true.mp List.all_takeWhile c hc⟩

theorem isFraction_splitFraction (cs : List Char) : IsFraction (splitFraction cs).1 := by
  unfold splitFraction
  split
  · split
    · next d cs hd =>
      refine .inr ⟨d, _, rfl, List.forall_mem_cons.mpr ⟨hd, fun c hc => ?_⟩⟩
      exact List.all_eq_true.mp List.all_takeWhile c hc
    · exact .inl rfl
  · exact .inl rfl

theorem isSign_splitSign (cs : List Char) : IsSign (splitSign cs).1 := by
  unfold splitSign
  split
  · exact .inr (.inl rfl)
  · exact .inr (.inr rfl)
  · exact .inl rfl

theorem isSuffix_splitSuffix (cs : List Char) : IsSuffix (splitSuffix cs).1 := by
  unfold splitSuffix
  split
  · exact .inr (.inl rfl)
  · exact .inr (.inr rfl)
  · exact .inl rfl

theorem scanNumber_marked {cs : List Char} {mark : Char} (hwhole : splitDigits cs = (whole, rest))
    (hfraction : splitFraction rest = (fraction, mark :: rest')) (hmark : IsMark mark) :
    scanNumber cs = scanExponent (whole ++ fraction ++ [mark]) rest' := by
  rcases hmark with rfl | rfl <;> simp only [scanNumber, hwhole, hfraction]

theorem scanNumber_unmarked {cs : List Char} (hwhole : splitDigits cs = (whole, rest))
    (hfraction : splitFraction rest = (fraction, rest')) (hmark : ∀ c ∈ rest'.head?, ¬ IsMark c) :
    scanNumber cs =
      if fraction.isEmpty then ⟨.ok .integer, whole, rest'⟩
      else floatLexeme (whole ++ fraction) rest' := by
  simp only [scanNumber, hwhole, hfraction]
  split
  · exact absurd (.inl rfl) (hmark 'e' rfl)
  · exact absurd (.inr rfl) (hmark 'E' rfl)
  · rfl

theorem scanExponent_of_starts {mark sign ds : List Char} {d : Char} (hsign : IsSign sign)
    (hd : d.isDigit = true) : scanExponent mark (sign ++ d :: ds) =
      floatLexeme (mark ++ sign ++ (splitDigits (d :: ds)).1) (splitDigits (d :: ds)).2 := by
  have hne := splitDigits_ne_nil hd ds
  simp only [scanExponent, splitSign_eq hsign hd]
  rw [if_neg]
  simpa using hne

theorem verdict_scanExponent {mark cs : List Char} (h : ¬ StartsExponent cs) :
    (scanExponent mark cs).verdict = .error .bareExponent := by
  have hempty : (splitDigits (splitSign cs).2).1 = [] := by
    apply List.eq_nil_iff_forall_not_mem.mpr
    intro c hc
    obtain ⟨d, ds, hdigits⟩ := List.exists_cons_of_ne_nil (List.ne_nil_of_mem hc)
    have hd : d.isDigit = true := by
      refine List.all_eq_true.mp (List.all_takeWhile (l := (splitSign cs).2)) d ?_
      show d ∈ (splitDigits (splitSign cs).2).1
      rw [hdigits]
      exact List.mem_cons_self
    refine h ⟨(splitSign cs).1, d, ds ++ (splitDigits (splitSign cs).2).2, ?_,
      isSign_splitSign cs, hd⟩
    rw [← List.cons_append, ← hdigits, splitDigits_append, splitSign_append]
  simp [scanExponent, hempty]

/-- What is taken as a number is one, and else an exponent is missing. -/
theorem scanNumber_sound {d : Char} (hd : d.isDigit = true) (cs : List Char) :
    match (scanNumber (d :: cs)).verdict with
    | .ok k => IsNumber k (scanNumber (d :: cs)).chars
    | .error _ => IsDefective (d :: cs) := by
  obtain ⟨ds, rest, hwhole, rfl, hdigits⟩ := exists_splitDigits hd cs
  rcases hfraction : splitFraction rest with ⟨fraction, rest'⟩
  have happend := splitFraction_append rest
  have hisFraction := isFraction_splitFraction rest
  rw [hfraction] at happend hisFraction
  have hnumber : IsMantissa (d :: ds ++ fraction) := ⟨d, ds, fraction, rfl, hdigits, hisFraction⟩
  have htext : d :: (ds ++ rest) = d :: ds ++ fraction ++ rest' := by
    rw [List.append_assoc, happend, List.cons_append]
  by_cases hmark : ∃ mark more, rest' = mark :: more ∧ IsMark mark
  · obtain ⟨mark, more, rfl, hmark⟩ := hmark
    rw [scanNumber_marked hwhole hfraction hmark]
    by_cases hexponent : StartsExponent more
    · obtain ⟨sign, e, es, rfl, hsign, he⟩ := hexponent
      obtain ⟨es', more, hsplit, rfl, hexponent⟩ := exists_splitDigits he es
      rw [scanExponent_of_starts hsign he, hsplit]
      have h := IsNumber.scientific hnumber hmark hsign hexponent (isSuffix_splitSuffix more)
      simpa [floatLexeme] using h
    · rw [verdict_scanExponent hexponent, htext]
      exact .bareExponent hnumber hmark hexponent
  · have hunmarked : ∀ c ∈ rest'.head?, ¬ IsMark c := by
      intro c hc hc'
      obtain ⟨more, rfl⟩ := List.head?_eq_some_iff.mp hc
      exact hmark ⟨c, more, rfl, hc'⟩
    rw [scanNumber_unmarked hwhole hfraction hunmarked]
    rcases hisFraction with rfl | ⟨e, es, rfl, hes⟩
    · exact .integer hdigits
    · have h := IsNumber.decimal hdigits hes (isSuffix_splitSuffix rest')
      simpa [floatLexeme] using h

/-- The digits and the fraction are taken in any case. -/
theorem mantissa_isPrefix (cs : List Char) : (splitDigits cs).1 ++
    (splitFraction (splitDigits cs).2).1 <+: (scanNumber cs).chars := by
  unfold scanNumber scanExponent floatLexeme
  dsimp only
  split
  · split <;> simp [List.append_assoc]
  · split <;> simp [List.append_assoc]
  · split
    · next hempty =>
      simp only [List.isEmpty_iff.mp hempty, List.append_nil]
      exact List.prefix_rfl
    · exact List.prefix_append _ _

/-- The letter of a suffix neither goes on with digits nor is the mark of an exponent. -/
theorem head?_suffix {suffix : List Char} (h : suffix = ['f'] ∨ suffix = ['F']) (rest : List Char) :
    ∀ c ∈ (suffix ++ rest).head?, c.isDigit = false ∧ ¬ IsMark c := by
  have hletter {c : Char} (hc : c = 'f' ∨ c = 'F') : c.isDigit = false ∧ ¬ IsMark c := by
    unfold IsMark
    rcases hc with rfl | rfl <;> decide
  intro c hc
  rcases h with rfl | rfl
  · exact hletter (.inl (Option.some.inj hc).symm)
  · exact hletter (.inr (Option.some.inj hc).symm)

/-- Digits with a suffix are taken as they are, and without one perhaps with more digits. -/
theorem floatLexeme_isPrefix (chars : List Char) {ds suffix : List Char} (hds : IsDigits ds)
    (hsuffix : IsSuffix suffix) (rest : List Char) : chars ++ (ds ++ suffix) <+:
      (floatLexeme (chars ++ (splitDigits (ds ++ (suffix ++ rest))).1)
        (splitDigits (ds ++ (suffix ++ rest))).2).chars := by
  rcases hsuffix with rfl | hletter
  · have htake : (splitDigits (ds ++ rest)).1 = ds ++ rest.takeWhile Char.isDigit :=
      List.takeWhile_append_of_pos hds
    simp only [List.append_nil, List.nil_append, floatLexeme, htake, List.append_assoc]
    rw [← List.append_assoc]
    exact List.prefix_append _ _
  · have hsplit : splitDigits (ds ++ (suffix ++ rest)) = (ds, suffix ++ rest) :=
      splitDigits_eq hds fun c hc => (head?_suffix hletter rest c hc).1
    have hsuffix : splitSuffix (suffix ++ rest) = (suffix, rest) := by
      rcases hletter with rfl | rfl <;> rfl
    simp only [hsplit, floatLexeme, hsuffix, List.append_assoc]
    exact List.prefix_rfl

theorem splitFraction_marked {mark : Char} (hfraction : IsFraction fraction) (hmark : IsMark mark) :
    splitFraction (fraction ++ mark :: rest) = (fraction, mark :: rest) := by
  apply splitFraction_eq hfraction
  intro c hc
  obtain rfl : mark = c := Option.some.inj hc
  rcases hmark with rfl | rfl <;> decide

theorem scanNumber_mantissa {mantissa : List Char} {mark : Char} (h : IsMantissa mantissa)
    (hmark : IsMark mark) (rest : List Char) :
    scanNumber (mantissa ++ mark :: rest) = scanExponent (mantissa ++ [mark]) rest := by
  obtain ⟨d, ds, fraction, rfl, hdigits, hfraction⟩ := h
  have hwhole : splitDigits (d :: ds ++ (fraction ++ mark :: rest)) =
      (d :: ds, fraction ++ mark :: rest) := by
    apply splitDigits_eq hdigits
    intro c hc
    rcases hfraction with rfl | ⟨e, es, rfl, -⟩
    · obtain rfl : mark = c := Option.some.inj hc
      exact hmark.isDigit
    · obtain rfl : '.' = c := Option.some.inj hc
      rfl
  rw [List.append_assoc]
  exact scanNumber_marked hwhole (splitFraction_marked hfraction hmark) hmark

theorem decimal_isPrefix {d e : Char} {ds es suffix : List Char} (whole : IsDigits (d :: ds))
    (fraction : IsDigits (e :: es)) (hsuffix : IsSuffix suffix) (rest : List Char) :
    d :: ds ++ '.' :: (e :: es ++ suffix) <+:
      (scanNumber (d :: ds ++ '.' :: e :: (es ++ (suffix ++ rest)))).chars := by
  obtain ⟨he, hes⟩ := List.forall_mem_cons.mp fraction
  have hwhole : splitDigits (d :: ds ++ '.' :: e :: (es ++ (suffix ++ rest))) =
      (d :: ds, '.' :: e :: (es ++ (suffix ++ rest))) :=
    splitDigits_eq whole fun c hc => Option.some.inj hc ▸ rfl
  have hfraction : splitFraction ('.' :: e :: (es ++ (suffix ++ rest))) =
      ('.' :: e :: (splitDigits (es ++ (suffix ++ rest))).1,
        (splitDigits (es ++ (suffix ++ rest))).2) := by
    rw [splitFraction, if_pos he]
  -- Without a suffix there may be more digits, and then perhaps an exponent.
  rcases hsuffix with rfl | hletter
  · have htake : (splitDigits (es ++ ([] ++ rest))).1 = es ++ rest.takeWhile Char.isDigit :=
      List.takeWhile_append_of_pos hes
    have hall := mantissa_isPrefix (d :: ds ++ '.' :: e :: (es ++ ([] ++ rest)))
    rw [hwhole, hfraction, htake] at hall
    refine List.IsPrefix.trans ⟨rest.takeWhile Char.isDigit, ?_⟩ hall
    simp
  · have hsplit : splitDigits (es ++ (suffix ++ rest)) = (es, suffix ++ rest) :=
      splitDigits_eq hes fun c hc => (head?_suffix hletter rest c hc).1
    have htaken := floatLexeme_isPrefix (d :: ds ++ ['.', e]) hes (.inr hletter) rest
    rw [hsplit] at hfraction htaken
    rw [scanNumber_unmarked hwhole hfraction fun c hc => (head?_suffix hletter rest c hc).2]
    simpa using htaken

/-- A number at the front of a text is taken, perhaps with more behind it. -/
theorem Text.IsNumber.isPrefix {k : Token.Kind} {cs : List Char} (h : IsNumber k cs)
    (rest : List Char) : cs <+: (scanNumber (cs ++ rest)).chars := by
  cases h with
  | @integer d ds digits =>
    have htake : (splitDigits (d :: ds ++ rest)).1 = d :: ds ++ rest.takeWhile Char.isDigit :=
      List.takeWhile_append_of_pos digits
    have hall := mantissa_isPrefix (d :: ds ++ rest)
    rw [htake, List.append_assoc] at hall
    exact (List.prefix_append _ _).trans hall
  | @decimal d e ds es suffix whole fraction hsuffix =>
    have htext : d :: ds ++ '.' :: (e :: es ++ suffix) ++ rest =
        d :: ds ++ '.' :: e :: (es ++ (suffix ++ rest)) := by
      simp
    rw [htext]
    exact decimal_isPrefix whole fraction hsuffix rest
  | @scientific mantissa sign ds suffix mark d number hmark hsign digits hsuffix =>
    have hd := digits d List.mem_cons_self
    have htext : mantissa ++ mark :: (sign ++ (d :: ds ++ suffix)) ++ rest =
        mantissa ++ mark :: (sign ++ d :: (ds ++ (suffix ++ rest))) := by
      simp
    have htaken := floatLexeme_isPrefix (mantissa ++ [mark] ++ sign) digits hsuffix rest
    rw [htext, scanNumber_mantissa number hmark, scanExponent_of_starts hsign hd]
    simpa using htaken

end

/-! ## Symbols -/

/-- A character that starts a symbol of two is a symbol itself, unless the symbol is `&&` or
`||`. -/
theorem Symbol.ofChars?_first {s : Symbol} {c : Char} {cs : List Char} (h : s.chars = c :: cs) :
    (ofChars? [c]).isSome = true ∨ (c = '&' ∨ c = '|') ∧ cs = [c] := by
  have hall : ∀ s ∈ all, (ofChars? (s.chars.take 1)).isSome = true ∨
      s.chars = ['&', '&'] ∨ s.chars = ['|', '|'] := by
    decide
  have hfirst := hall s s.mem_all
  rw [h] at hfirst
  rcases hfirst with hone | htwo | htwo
  · exact .inl hone
  · cases htwo
    exact .inr ⟨.inl rfl, rfl⟩
  · cases htwo
    exact .inr ⟨.inr rfl, rfl⟩

theorem scanSymbol?_sound {c : Char} {cs : List Char} {l : Lexeme} (h : scanSymbol? c cs = some l) :
    ∃ s : Symbol, l.verdict = .ok (.symbol s) ∧ l.chars = s.chars := by
  unfold scanSymbol? at h
  split at h
  · next s _ =>
    obtain rfl := Option.some.inj h
    exact ⟨s, rfl, rfl⟩
  · obtain ⟨s, hs, rfl⟩ := Option.map_eq_some_iff.mp h
    exact ⟨s, rfl, (Symbol.chars_of_ofChars? hs).symm⟩

theorem ofChars?_of_scanSymbol? {c : Char} {cs : List Char} (h : scanSymbol? c cs = none) :
    Symbol.ofChars? [c] = none ∧ ∀ d ∈ cs.head?, Symbol.ofChars? [c, d] = none := by
  unfold scanSymbol? at h
  split at h
  · cases h
  · next htwo =>
    exact ⟨Option.map_eq_none_iff.mp h, Option.bind_eq_none_iff.mp htwo⟩

/-- A symbol of one character is taken with a second character if both are a symbol. -/
theorem Symbol.isPrefix {s : Symbol} {c : Char} {cs : List Char} (h : s.chars = c :: cs)
    (rest : List Char) :
    ∃ l, scanSymbol? c (cs ++ rest) = some l ∧ c :: cs <+: l.chars := by
  have hs := s.ofChars?_chars
  rw [h] at hs
  unfold scanSymbol?
  rcases s.chars_cases with ⟨d, hd⟩ | ⟨d, e, hd, -⟩
  · obtain ⟨rfl, rfl⟩ := List.cons.inj (h.symm.trans hd)
    cases htwo : ([] ++ rest).head?.bind fun e => ofChars? [c, e] with
    | none =>
      rw [hs]
      exact ⟨_, rfl, List.prefix_rfl⟩
    | some t =>
      obtain ⟨e, -, ht⟩ := Option.bind_eq_some_iff.mp htwo
      refine ⟨_, rfl, ?_⟩
      show [c] <+: t.chars
      rw [chars_of_ofChars? ht]
      exact List.prefix_append [c] [e]
  · obtain ⟨rfl, rfl⟩ := List.cons.inj (h.symm.trans hd)
    have htwo : ([e] ++ rest).head?.bind (fun e => ofChars? [c, e]) = some s := hs
    rw [htwo]
    refine ⟨_, rfl, ?_⟩
    show [c, e] <+: s.chars
    simp only [h]
    exact List.prefix_rfl

/-- Where no symbol, number or word starts, there is no token at all. -/
theorem isDefective_of_stray {c : Char} {cs : List Char} (hsymbol : scanSymbol? c cs = none)
    (hdigit : ¬ c.isDigit = true) (hstart : ¬ isIdentifierStart c = true) :
    IsDefective (c :: cs) := by
  obtain ⟨hone, htwo⟩ := ofChars?_of_scanSymbol? hsymbol
  by_cases hhalf : c = '&' ∨ c = '|'
  · apply IsDefective.halfOperator hhalf
    intro hhead
    have hnone := htwo c hhead
    rcases hhalf with rfl | rfl <;> cases hnone
  · apply IsDefective.strayChar
    intro k lexeme hlexeme hhead
    obtain ⟨d, ds, rfl, hclass⟩ := hlexeme.cases_first
    obtain rfl : d = c := Option.some.inj hhead
    rcases hclass with ⟨s, -, hs, -⟩ | ⟨hd, -⟩ | ⟨hd, -⟩
    · rcases Symbol.ofChars?_first hs with hsome | ⟨hd, -⟩
      · rw [hone] at hsome
        cases hsome
      · exact hhalf hd
    · exact hdigit hd
    · exact hstart hd

/-! ## Lexemes -/

/-- What is taken is in the language, and what is refused is defective. -/
theorem scanLexeme_sound (c : Char) (cs : List Char) :
    match (scanLexeme c cs).verdict with
    | .ok k => Token.IsLexeme k (scanLexeme c cs).chars
    | .error _ => IsDefective (c :: cs) := by
  by_cases hdigit : c.isDigit = true
  · have hsound := scanNumber_sound hdigit cs
    rw [scanLexeme_of_digit hdigit]
    cases hverdict : (scanNumber (c :: cs)).verdict with
    | ok k =>
      rw [hverdict] at hsound
      exact .number hsound
    | error cause =>
      rw [hverdict] at hsound
      exact hsound
  by_cases hstart : isIdentifierStart c = true
  · have hpart := isIdentifierPart_of_start hstart
    rw [scanLexeme_of_start hstart]
    unfold scanWord
    rw [List.takeWhile_cons_of_pos hpart]
    exact .word hstart fun d hd => List.all_eq_true.mp List.all_takeWhile d hd
  unfold scanLexeme
  cases hsymbol : scanSymbol? c cs with
  | some l =>
    obtain ⟨s, hverdict, hchars⟩ := scanSymbol?_sound hsymbol
    dsimp only
    rw [hverdict, hchars]
    exact .symbol s
  | none =>
    dsimp only
    rw [if_neg hdigit, if_neg hstart]
    exact isDefective_of_stray hsymbol hdigit hstart

/-- A text of the language at the front of another one is taken, perhaps with more behind it. -/
theorem Token.IsLexeme.isPrefix {k : Token.Kind} {c : Char} {cs : List Char}
    (h : IsLexeme k (c :: cs)) (rest : List Char) :
    c :: cs <+: (scanLexeme c (cs ++ rest)).chars := by
  obtain ⟨d, ds, heq, hclass⟩ := h.cases_first
  obtain ⟨rfl, rfl⟩ := List.cons.inj heq
  rcases hclass with ⟨s, -, hs, -⟩ | ⟨hd, hnumber⟩ | ⟨hstart, hparts, -⟩
  · obtain ⟨l, hscan, hprefix⟩ := s.isPrefix hs rest
    rw [scanLexeme, hscan]
    exact hprefix
  · rw [scanLexeme_of_digit hd]
    exact hnumber.isPrefix rest
  · have hall : ∀ d ∈ c :: cs, isIdentifierPart d = true :=
      List.forall_mem_cons.mpr ⟨isIdentifierPart_of_start hstart, hparts⟩
    rw [scanLexeme_of_start hstart, scanWord, ← List.cons_append,
      List.takeWhile_append_of_pos hall]
    exact List.prefix_append _ _

/-- Defective texts are refused. -/
theorem Text.IsDefective.verdict {c : Char} {cs : List Char} (h : IsDefective (c :: cs)) :
    ∃ cause, (scanLexeme c cs).verdict = .error cause := by
  have happend := scanLexeme_append c cs
  have hsound := scanLexeme_sound c cs
  cases hverdict : (scanLexeme c cs).verdict with
  | error cause => exact ⟨cause, rfl⟩
  | ok k =>
    exfalso
    rw [hverdict] at hsound
    obtain ⟨d, ds, hchars, hclass⟩ := Token.IsLexeme.cases_first hsound
    rw [Lexeme.Splits, hchars, List.cons_append] at happend
    obtain ⟨rfl, happend⟩ := List.cons.inj happend
    generalize htext : d :: cs = text at h
    cases h with
    | @halfOperator c' cs' hc h =>
      obtain ⟨rfl, rfl⟩ := List.cons.inj htext
      rcases hclass with ⟨s, -, hs, -⟩ | ⟨hd, -⟩ | ⟨hd, -⟩
      · rcases Symbol.ofChars?_first hs with hsome | ⟨-, rfl⟩
        · rcases hc with rfl | rfl <;> cases hsome
        · rw [← happend] at h
          exact h rfl
      · rcases hc with rfl | rfl <;> cases hd
      · rcases hc with rfl | rfl <;> revert hd <;> decide
    | @strayChar c' cs' h =>
      obtain ⟨rfl, rfl⟩ := List.cons.inj htext
      exact h k _ hsound (by rw [hchars]; rfl)
    | @bareExponent mantissa rest mark number hmark h =>
      have hd : d.isDigit = true := by
        obtain ⟨e, es, rfl, he⟩ := number.exists_digit
        obtain ⟨rfl, -⟩ := List.cons.inj htext
        exact he
      have hscan : scanLexeme d cs = scanExponent (mantissa ++ [mark]) rest := by
        rw [scanLexeme_of_digit hd, htext, scanNumber_mantissa number hmark]
      rw [hscan, verdict_scanExponent h] at hverdict
      cases hverdict

/-! ## Tokens -/

/-- The text goes on behind the cursor, and neither with a blank nor with a comment. -/
structure Cursor.AtLexeme (c : Cursor) : Prop where
  nonempty : c.rest ≠ []
  not_blank : ∀ d ∈ c.rest.head?, isBlank d = false
  not_comment : ¬ ['/', '/'] <+: c.rest ∧ ¬ ['/', '*'] <+: c.rest

instance (c : Cursor) : Decidable c.AtLexeme :=
  have hiff : c.rest ≠ [] ∧ c.rest.head?.any isBlank = false ∧
      ¬ ['/', '/'] <+: c.rest ∧ ¬ ['/', '*'] <+: c.rest ↔ c.AtLexeme := by
    have hblank : c.rest.head?.any isBlank = false ↔ ∀ d ∈ c.rest.head?, isBlank d = false := by
      cases c.rest.head? <;> simp
    rw [hblank]
    exact ⟨fun h => ⟨h.1, h.2.1, h.2.2⟩, fun h => ⟨h.nonempty, h.not_blank, h.not_comment⟩⟩
  decidable_of_iff _ hiff

/-- The token is the longest one at the front of the text, and has the kind of its lexeme. -/
structure Token.IsLongest (t : Token) (text : List Char) : Prop where
  isPrefix : t.lexeme.toList <+: text
  kind : ∀ k, IsLexeme k t.lexeme.toList ↔ k = t.kind
  longest : ∀ k lexeme, IsLexeme k lexeme → lexeme <+: text → lexeme <+: t.lexeme.toList

/-- What is taken is the longest token. -/
theorem scanLexeme_isLongest {d : Char} {cs : List Char} {k : Token.Kind}
    (h : (scanLexeme d cs).verdict = .ok k) (span : Span) :
    Token.IsLongest ⟨k, span, String.ofList (scanLexeme d cs).chars⟩ (d :: cs) := by
  have hsound := scanLexeme_sound d cs
  rw [h] at hsound
  constructor <;> simp only [String.toList_ofList]
  · exact ⟨_, scanLexeme_append d cs⟩
  · intro k'
    constructor
    · exact fun hk' => hk'.kind_eq hsound
    · rintro rfl
      exact hsound
  · rintro k' lexeme hlexeme ⟨rest, heq⟩
    obtain ⟨e, es, rfl, -⟩ := hlexeme.cases_first
    obtain ⟨rfl, rfl⟩ := List.cons.inj heq
    exact hlexeme.isPrefix rest

theorem Cursor.AtLexeme.next_eq {c : Cursor} (h : c.AtLexeme) : ∃ d cs, c.rest = d :: cs ∧
    c.next = ((scanLexeme d cs).item c.position,
      ⟨c.position.past (scanLexeme d cs).chars, (scanLexeme d cs).rest⟩) := by
  obtain ⟨d, cs, hrest⟩ := List.exists_cons_of_ne_nil h.nonempty
  have hgap : skipGap .blank c.position c.rest = .ok ⟨c.position, d :: cs⟩ := by
    rw [hrest]
    refine skipGap_of_not_blank (h.not_blank d (by rw [hrest]; rfl)) fun hslash e he => ?_
    obtain ⟨es, rfl⟩ := List.head?_eq_some_iff.mp he
    obtain ⟨hline, hblock⟩ := h.not_comment
    rw [hrest, hslash] at hline hblock
    constructor
    · rintro rfl
      exact hline ⟨es, rfl⟩
    · rintro rfl
      exact hblock ⟨es, rfl⟩
  refine ⟨d, cs, hrest, ?_⟩
  rw [next, hgap]

/-- **Longest match.** Where neither a blank nor a comment stands and the text does not end, the
scanner takes the longest text of the token language with the kind that this text has, or it
refuses. It refuses exactly the texts that start with one `&` or one `|`, with a character that
starts no token, or with digits, perhaps a fraction, and the mark of an exponent without digits. -/
theorem Cursor.next_longest {c : Cursor} (h : c.AtLexeme) :
    ((∃ t c', c.next = (.token t, c') ∧ t.IsLongest c.rest ∧ t.span = ⟨c.position, c'.position⟩ ∧
        c.rest = t.lexeme.toList ++ c'.rest) ∨ ∃ f c', c.next = (.fault f, c')) ∧
      ((∃ f c', c.next = (.fault f, c')) ↔ IsDefective c.rest) := by
  obtain ⟨d, cs, hrest, hnext⟩ := h.next_eq
  rw [hnext, hrest]
  unfold Lexeme.item
  cases hverdict : (scanLexeme d cs).verdict with
  | error cause =>
    have hdefective := scanLexeme_sound d cs
    rw [hverdict] at hdefective
    exact ⟨.inr ⟨_, _, rfl⟩, fun _ => hdefective, fun _ => ⟨_, _, rfl⟩⟩
  | ok k =>
    refine ⟨.inl ⟨_, _, rfl, scanLexeme_isLongest hverdict _, rfl, ?_⟩, ?_, ?_⟩
    · rw [String.toList_ofList]
      exact (scanLexeme_append d cs).symm
    · rintro ⟨f, c', heq⟩
      cases heq
    · intro hdefective
      obtain ⟨cause, herror⟩ := hdefective.verdict
      rw [hverdict] at herror
      cases herror

/-- A float with all its parts, in front of a letter that could be a suffix too. -/
theorem Cursor.next_longest_float :
    ∃ c : Cursor, c.AtLexeme ∧ (c.next.1.span.stop.offset, c.next.2.rest) = (9, ['F', ';']) ∧
      ((∃ t c', c.next = (.token t, c') ∧ t.IsLongest c.rest ∧
          t.span = ⟨c.position, c'.position⟩ ∧ c.rest = t.lexeme.toList ++ c'.rest) ∨
        ∃ f c', c.next = (.fault f, c')) ∧
      ((∃ f c', c.next = (.fault f, c')) ↔ IsDefective c.rest) := by
  have hat : (Cursor.ofText "07.50E-3fF;").AtLexeme := by decide +kernel
  exact ⟨.ofText "07.50E-3fF;", hat, by decide +kernel, next_longest hat⟩

end LoopNest
