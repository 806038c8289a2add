import LoopNest.Binary64.Shortest
import LoopNest.Grammar.Expr
import LoopNest.Proofs.Token.Spelling

/-!
# The spelling of numbers

Texts of numbers are single tokens, and a whole number is the value of its text.

* `Text.IsFloat`: digits with a fraction or an exponent behind them.
* `Word.fits_integer`, `Word.fits_float`: such texts are words.
* `Binary64.isFloat_text`: the text of a number that a literal may have is one of them.
* `Grammar.integerLiteral_repr`: a whole number is read from its text.
-/

namespace LoopNest

namespace Text

/-! ## Rows of digits -/

def IsDigits (cs : List Char) : Prop := ∀ c ∈ cs, c.isDigit = true

theorem IsDigits.append {cs ds : List Char} (h : IsDigits cs) (h' : IsDigits ds) :
    IsDigits (cs ++ ds) := fun c hc => (List.mem_append.mp hc).elim (h c) (h' c)

theorem isDigits_toDigits (n : Nat) : IsDigits (Nat.toDigits 10 n) :=
  fun _ hc => Nat.isDigit_of_mem_toDigits (by decide) (by decide) hc

theorem digitsValue_toDigits (n : Nat) : digitsValue (Nat.toDigits 10 n) = n := by
  have h := Nat.ofDigitChars_toDigits (b := 10) (n := n) (by decide) (by decide)
  simpa [digitsValue, Nat.ofDigitChars] using h

theorem splitDigits_eq {cs rest : List Char} (hcs : IsDigits cs)
    (hrest : ∀ c ∈ rest.head?, c.isDigit = false) : splitDigits (cs ++ rest) = (cs, rest) := by
  obtain ⟨htake, hdrop⟩ := splitWhile_append hcs hrest
  rw [splitDigits, htake, hdrop]

/-! ## Parts of numbers -/

/-- Nothing, or a sign. -/
def IsSign (cs : List Char) : Prop := cs = [] ∨ cs = ['+'] ∨ cs = ['-']

theorem splitSign_eq {sign : List Char} {d : Char} (hsign : IsSign sign) (hd : d.isDigit = true)
    (rest : List Char) : splitSign (sign ++ d :: rest) = (sign, d :: rest) := by
  rcases hsign with rfl | rfl | rfl
  · rw [List.nil_append, splitSign]
    · rintro cs heq
      obtain ⟨rfl, -⟩ := List.cons.inj heq
      cases hd
    · rintro cs heq
      obtain ⟨rfl, -⟩ := List.cons.inj heq
      cases hd
  · rfl
  · rfl

/-- Nothing, or a point and digits. -/
def IsFraction (cs : List Char) : Prop :=
  cs = [] ∨ ∃ d ds, cs = '.' :: d :: ds ∧ IsDigits (d :: ds)

/-- Nothing, or a mark, a sign that may be left out, and digits. -/
def IsExponent (cs : List Char) : Prop :=
  cs = [] ∨ ∃ sign d ds, cs = 'e' :: (sign ++ d :: ds) ∧ (sign = [] ∨ sign = ['-']) ∧
    IsDigits (d :: ds)

/-- Digits with a fraction, an exponent or both. -/
def IsFloat (cs : List Char) : Prop :=
  ∃ d ds fraction exponent, cs = (d :: ds) ++ (fraction ++ exponent) ∧ IsDigits (d :: ds) ∧
    IsFraction fraction ∧ IsExponent exponent ∧ (fraction ≠ [] ∨ exponent ≠ [])

end Text

open Text

theorem splitFraction_eq {fraction rest : List Char} (hfraction : IsFraction fraction)
    (hrest : ∀ c ∈ rest.head?, c.isDigit = false ∧ c ≠ '.') :
    splitFraction (fraction ++ rest) = (fraction, rest) := by
  rcases hfraction with rfl | ⟨d, ds, rfl, hdigits⟩
  · rw [List.nil_append, splitFraction]
    rintro d cs rfl
    exact (hrest '.' rfl).2 rfl
  · obtain ⟨hd, hds⟩ := List.forall_mem_cons.mp hdigits
    simp only [List.cons_append, splitFraction, hd, if_true,
      splitDigits_eq hds fun c hc => (hrest c hc).1]

theorem floatLexeme_of_stops {chars rest : List Char} (h : Stops rest) :
    floatLexeme chars rest = ⟨.ok .float, chars, rest⟩ := by
  have hsuffix : splitSuffix rest = ([], rest) := by
    rw [splitSuffix]
    · rintro cs rfl
      exact absurd (h 'f' rfl).1 (by decide)
    · rintro cs rfl
      exact absurd (h 'F' rfl).1 (by decide)
  simp [floatLexeme, hsuffix]

theorem scanExponent_eq {mark sign rest : List Char} {d : Char} {ds : List Char}
    (hsign : sign = [] ∨ sign = ['-']) (hdigits : IsDigits (d :: ds)) (h : Stops rest) :
    scanExponent mark (sign ++ d :: ds ++ rest) =
      ⟨.ok .float, mark ++ sign ++ d :: ds, rest⟩ := by
  have hsplit : splitSign (sign ++ d :: ds ++ rest) = (sign, d :: ds ++ rest) := by
    rw [List.append_assoc, List.cons_append]
    exact splitSign_eq (hsign.imp_right .inr) (hdigits d List.mem_cons_self) (ds ++ rest)
  have hrest : ∀ c ∈ rest.head?, c.isDigit = false := by
    intro c hc
    cases rest with
    | nil => cases hc
    | cons e rest =>
      obtain rfl := Option.some.inj hc
      exact h.isDigit
  simp only [scanExponent, hsplit, splitDigits_eq hdigits hrest, List.isEmpty_cons,
    floatLexeme_of_stops h]
  simp

/-- Behind a name or a number there is no digit and no point. -/
theorem Text.Stops.head? {rest : List Char} (h : Stops rest) :
    ∀ c ∈ rest.head?, c.isDigit = false ∧ c ≠ '.' := by
  intro c hc
  cases rest with
  | nil => cases hc
  | cons e rest =>
    obtain rfl := Option.some.inj hc
    exact ⟨h.isDigit, (h _ rfl).2⟩

theorem scanNumber_integer {cs rest : List Char} (hcs : IsDigits cs) (h : Stops rest) :
    scanNumber (cs ++ rest) = ⟨.ok .integer, cs, rest⟩ := by
  have hfraction := splitFraction_eq (.inl rfl) h.head?
  rw [List.nil_append] at hfraction
  simp only [scanNumber, splitDigits_eq hcs fun c hc => (h.head? c hc).1, hfraction]
  split
  · exact absurd (h 'e' rfl).1 (by decide)
  · exact absurd (h 'E' rfl).1 (by decide)
  · rfl

theorem scanNumber_float {cs rest : List Char} (hcs : IsFloat cs) (h : Stops rest) :
    scanNumber (cs ++ rest) = ⟨.ok .float, cs, rest⟩ := by
  obtain ⟨d, ds, fraction, exponent, rfl, hdigits, hfraction, hexponent, hne⟩ := hcs
  have hbehind : ∀ c ∈ (exponent ++ rest).head?, c.isDigit = false ∧ c ≠ '.' := by
    rcases hexponent with rfl | ⟨sign, e, es, rfl, _⟩
    · exact h.head?
    · intro c hc
      obtain rfl : 'e' = c := Option.some.inj hc
      decide
  have hwhole : ∀ c ∈ (fraction ++ (exponent ++ rest)).head?, c.isDigit = false := by
    rcases hfraction with rfl | ⟨e, es, rfl, _⟩
    · exact fun c hc => (hbehind c hc).1
    · intro c hc
      obtain rfl : '.' = c := Option.some.inj hc
      decide
  rw [List.append_assoc, List.append_assoc]
  simp only [scanNumber, splitDigits_eq hdigits hwhole, splitFraction_eq hfraction hbehind]
  rcases hexponent with rfl | ⟨sign, e, es, rfl, hsign, hes⟩
  · rw [List.nil_append]
    have hfraction : fraction.isEmpty = false := by simpa using hne
    split
    · exact absurd (h 'e' rfl).1 (by decide)
    · exact absurd (h 'E' rfl).1 (by decide)
    · simp [hfraction, floatLexeme_of_stops h]
  · simp only [List.cons_append]
    rw [scanExponent_eq hsign hes h]
    simp

/-! ## Words -/

namespace Word

/-- What is scanned as a number, whatever stands behind it, is a word. -/
theorem fits_number {kind : Token.Kind} {d : Char} {ds rest : List Char} (hd : d.isDigit = true)
    (hkind : kind ≠ .endOfFile) (hnewline : '\n' ∉ ds)
    (hscan : ∀ rest', Stops rest' → scanNumber (d :: ds ++ rest') = ⟨.ok kind, d :: ds, rest'⟩)
    (h : Stops rest) : (⟨kind, String.ofList (d :: ds)⟩ : Word).Fits (d :: ds) rest := by
  have hpart := (isDigit_isPart hd).1
  refine ⟨rfl, hkind, ?_, fun rest' hhead => ⟨d, ds, rfl, fun p => skipGap_of_part hpart, ?_⟩⟩
  · rintro (_ | _)
    · cases hd
    · next hmem => exact hnewline hmem
  · have hstops : Stops rest' := fun c hc => h c (hhead ▸ hc)
    rw [scanLexeme_of_digit hd]
    exact hscan rest' hstops

theorem not_mem_of_isDigits {cs : List Char} (h : IsDigits cs) : '\n' ∉ cs :=
  fun hmem => absurd (h _ hmem) (by decide)

theorem fits_integer (n : Nat) {rest : List Char} (h : Stops rest) :
    (⟨.integer, n.repr⟩ : Word).Fits n.repr.toList rest := by
  have hdigits := isDigits_toDigits n
  rw [Nat.toList_repr]
  have hrepr : n.repr = String.ofList (Nat.toDigits 10 n) := by
    rw [← Nat.toList_repr, String.ofList_toList]
  rw [hrepr]
  obtain ⟨d, ds, hcons⟩ := List.exists_cons_of_ne_nil (Nat.toDigits_ne_nil (n := n) (b := 10))
  rw [hcons] at hdigits ⊢
  obtain ⟨hd, hds⟩ := List.forall_mem_cons.mp hdigits
  exact fits_number hd (by simp) (not_mem_of_isDigits hds)
    (fun rest' h' => scanNumber_integer hdigits h') h

theorem fits_float {s : String} {rest : List Char} (hs : IsFloat s.toList) (h : Stops rest) :
    (⟨.float, s⟩ : Word).Fits s.toList rest := by
  have hscan (rest' : List Char) (h' : Stops rest') := scanNumber_float hs h'
  obtain ⟨d, ds, fraction, exponent, hchars, hdigits, hfraction, hexponent, _⟩ := hs
  obtain ⟨hd, hds⟩ := List.forall_mem_cons.mp hdigits
  have hnewline : '\n' ∉ ds ++ (fraction ++ exponent) := by
    simp only [List.mem_append, not_or]
    refine ⟨not_mem_of_isDigits hds, ?_, ?_⟩
    · rcases hfraction with rfl | ⟨e, es, rfl, hes⟩
      · exact List.not_mem_nil
      · simpa using not_mem_of_isDigits hes
    · rcases hexponent with rfl | ⟨sign, e, es, rfl, rfl | rfl, hes⟩
      · exact List.not_mem_nil
      · simpa using not_mem_of_isDigits hes
      · simpa using not_mem_of_isDigits hes
  have hof : s = String.ofList (d :: (ds ++ (fraction ++ exponent))) := by
    rw [← List.cons_append, ← hchars, String.ofList_toList]
  rw [hchars] at hscan ⊢
  rw [hof]
  exact fits_number hd (by simp) hnewline hscan h

end Word

/-! ## The text of a floating-point number -/

namespace Binary64

theorem isDigits_zeros (n : Nat) : IsDigits (zeros n) := by
  intro c hc
  rw [(List.mem_replicate.mp hc).2]
  rfl

theorem isFraction_point {cs : List Char} (hne : cs ≠ []) (hcs : IsDigits cs) :
    IsFraction ('.' :: cs) := by
  obtain ⟨d, ds, rfl⟩ := List.exists_cons_of_ne_nil hne
  exact .inr ⟨d, ds, rfl, hcs⟩

theorem isFloat_point {whole fraction : List Char} (hwhole : whole ≠ []) (hdigits : IsDigits whole)
    (hfraction : fraction ≠ []) (hdigits' : IsDigits fraction) :
    IsFloat (whole ++ '.' :: fraction) := by
  obtain ⟨d, ds, rfl⟩ := List.exists_cons_of_ne_nil hwhole
  exact ⟨d, ds, '.' :: fraction, [], by simp, hdigits, isFraction_point hfraction hdigits', .inl rfl,
    .inl (List.cons_ne_nil _ _)⟩

variable {digits : List Char}

theorem isFloat_positional (hne : digits ≠ []) (hdigits : IsDigits digits) (leading : Int) :
    IsFloat (positional digits leading) := by
  have htake (n : Nat) : IsDigits (digits.take n) := fun c hc => hdigits c (List.mem_of_mem_take hc)
  have hdrop (n : Nat) : IsDigits (digits.drop n) := fun c hc => hdigits c (List.mem_of_mem_drop hc)
  unfold positional
  split
  · dsimp only
    refine isFloat_point ?_ ((htake _).append (isDigits_zeros _)) ?_ ?_
    · simp [hne]
    · split
      · exact List.cons_ne_nil _ _
      · next h => simpa using h
    · split
      · exact fun c hc => by simp_all
      · exact hdrop _
  · have happend := (isDigits_zeros ((-leading).toNat - 1)).append hdigits
    exact isFloat_point (List.cons_ne_nil '0' []) (by simp [IsDigits]) (by simp [hne]) happend

theorem isFloat_scientific (hne : digits ≠ []) (hdigits : IsDigits digits) (leading : Int) :
    IsFloat (scientific "e" digits leading) := by
  obtain ⟨d, ds, rfl⟩ := List.exists_cons_of_ne_nil hne
  obtain ⟨hd, hds⟩ := List.forall_mem_cons.mp hdigits
  have hexponent : IsExponent ("e".toList ++ (toString leading).toList) := by
    cases leading with
    | ofNat n =>
      obtain ⟨e, es, hcons⟩ := List.exists_cons_of_ne_nil (Nat.toDigits_ne_nil (n := n) (b := 10))
      refine .inr ⟨[], e, es, ?_, .inl rfl, hcons ▸ isDigits_toDigits n⟩
      rw [← hcons, ← Nat.toList_repr]
      rfl
    | negSucc n =>
      obtain ⟨e, es, hcons⟩ :=
        List.exists_cons_of_ne_nil (Nat.toDigits_ne_nil (n := n + 1) (b := 10))
      refine .inr ⟨['-'], e, es, ?_, .inr rfl, hcons ▸ isDigits_toDigits (n + 1)⟩
      rw [← hcons, ← Nat.toList_repr]
      change "e".toList ++ ("-" ++ (n + 1).repr).toList = _
      simp
  refine ⟨d, [], if ds.isEmpty then [] else '.' :: ds, _, ?_, by simpa [IsDigits] using hd, ?_,
    hexponent, .inr (by simp)⟩
  · simp [scientific]
  · split
    · exact .inl rfl
    · next h => exact isFraction_point (by simpa using h) hds

theorem isFloat_decimal (d : Decimal) : IsFloat (Format.standard.decimal d) := by
  have hne : Nat.toDigits 10 d.coefficient ≠ [] := Nat.toDigits_ne_nil
  have hdigits := isDigits_toDigits d.coefficient
  unfold Format.decimal
  dsimp only
  split
  · exact isFloat_positional hne hdigits _
  · exact isFloat_scientific hne hdigits _

theorem nearest_le (n d : Nat) : nearest n d ≤ infinite := Nat.min_le_left _ _

theorem nearestDecimal_le (d : Decimal) : nearestDecimal d ≤ infinite := by
  unfold nearestDecimal
  dsimp only
  split
  · exact Nat.zero_le _
  · split
    · exact Nat.le_refl _
    · split <;> exact nearest_le _ _

/-- A number without a sign is written without one. -/
theorem toList_text (d : Decimal) :
    (ofDecimal false d).text.toList = Format.standard.magnitude (nearestDecimal d) := by
  have hnan : (ofDecimal false d).isNaN = false :=
    decide_eq_false (Nat.not_lt.mpr (nearestDecimal_le d))
  rw [text, hnan]
  simp [ofDecimal]

/-- A finite number without a sign is written with digits, so that it is a single token. -/
theorem isFloat_text {d : Decimal} (h : (ofDecimal false d).isFinite = true) :
    IsFloat (ofDecimal false d).text.toList := by
  have hfinite : nearestDecimal d < infinite := of_decide_eq_true h
  rw [toList_text, Format.magnitude, if_neg (Nat.ne_of_lt hfinite)]
  exact isFloat_decimal _

end Binary64

end LoopNest
