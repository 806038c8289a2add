import LoopNest.Proofs.Token.Coverage
import LoopNest.Proofs.Token.Longest

/-!
# Other separators

Between the tokens of a source any blanks and comments may stand, as long as the first character
behind a token is a blank. The words stay the same.

* `Text.IsLayout`, `Text.IsSeparator`: blanks and complete comments, and those that start with a
  blank.
* `Text.Joined`: lexemes with separators between them.
* `Token.IsLexeme.fits`: no lexeme reads past a blank.
* `Text.Joined.items`: what is read between the separators.
* `tokenize_joined`: so another spacing of the lexemes of a source has the same words.
-/

namespace LoopNest

namespace Text

/-! ## Separators -/

/-- Blanks and complete comments, in any order. A line comment is complete with its newline. -/
inductive IsLayout : List Char → Prop
  | nil : IsLayout []
  | blank {c : Char} {gap : List Char} (hc : isBlank c = true) (hgap : IsLayout gap) :
      IsLayout (c :: gap)
  | line {body gap : List Char} (hbody : '\n' ∉ body) (hgap : IsLayout gap) :
      IsLayout ('/' :: '/' :: (body ++ '\n' :: gap))
  | block {body gap : List Char} (hbody : ¬ ['*', '/'] <:+: body) (hgap : IsLayout gap) :
      IsLayout ('/' :: '*' :: (body ++ '*' :: '/' :: gap))

structure IsSeparator (gap : List Char) : Prop where
  layout : IsLayout gap
  blank : ∃ c ∈ gap.head?, isBlank c = true

/-- The texts one behind the other, with a separator between any two. -/
inductive Joined : List String → List Char → Prop
  | nil : Joined [] []
  | single (s : String) : Joined [s] s.toList
  | cons {s s' : String} {ss : List String} {gap rest : List Char} (hgap : IsSeparator gap)
      (hrest : Joined (s' :: ss) rest) : Joined (s :: s' :: ss) (s.toList ++ (gap ++ rest))

/-- The text ends here or goes on with a blank. -/
def Parts (rest : List Char) : Prop := ∀ c ∈ rest.head?, isBlank c = true

theorem Parts.stops {rest : List Char} (h : Parts rest) : Stops rest := by
  cases rest with
  | nil => exact fun c hc => absurd hc (Option.not_mem_none c)
  | cons c rest => exact .blank (h c rfl)

theorem IsSeparator.parts {gap : List Char} (h : IsSeparator gap) (rest : List Char) :
    Parts (gap ++ rest) := by
  obtain ⟨c, hc, hblank⟩ := h.blank
  obtain ⟨gap, rfl⟩ := List.head?_eq_some_iff.mp hc
  intro d hd
  obtain rfl : c = d := Option.some.inj hd
  exact hblank

theorem not_isInfix_concat {body : List Char} (h : ¬ ['*', '/'] <:+: body) :
    ¬ ['*', '/'] <:+: body ++ ['*'] := by
  rw [List.infix_concat_iff]
  rintro (⟨front, heq⟩ | hinfix)
  · have hlast := congrArg List.getLast? heq
    simp at hlast
  · exact h hinfix

theorem IsLayout.isGap {gap : List Char} (h : IsLayout gap) (behind : List Char) :
    IsGap behind gap := by
  induction h with
  | nil => exact .nil
  | blank hc _ ih => exact .blank hc ih
  | @line body gap hbody _ ih =>
    have hcomment : IsComment ('/' :: '/' :: body) ('\n' :: gap ++ behind) :=
      .line hbody fun c hc => (Option.some.inj hc).symm
    exact .comment hcomment (.blank rfl ih)
  | @block body gap hbody _ ih =>
    have hcomment : IsComment ('/' :: '*' :: (body ++ ['*', '/'])) (gap ++ behind) :=
      .block (not_isInfix_concat hbody)
    have htext : '/' :: '*' :: (body ++ '*' :: '/' :: gap) =
        '/' :: '*' :: (body ++ ['*', '/']) ++ gap := by simp
    rw [htext]
    exact .comment hcomment ih

/-- A gap is passed over as if the reader had started behind it. -/
theorem IsGap.skipGap_eq {gap behind : List Char} (h : IsGap behind gap) (p : Position) :
    skipGap .blank p (gap ++ behind) = skipGap .blank (p.past gap) behind := by
  induction h generalizing p with
  | nil => rfl
  | blank hc _ ih => rw [List.cons_append, skipGap_of_blank hc, ih, Position.past_cons]
  | @comment body gap hbody _ ih =>
    rw [List.append_assoc, Position.past_append, ← ih]
    cases hbody with
    | line hbody hbehind =>
      rw [List.cons_append, List.cons_append, skipGap, skipGap_lineComment _ hbody hbehind,
        ← Position.past_append]
      rfl
    | @block body _ hbody =>
      have htext : '/' :: '*' :: (body ++ ['*', '/']) ++ (gap ++ behind) =
          '/' :: '*' :: (body ++ '*' :: '/' :: (gap ++ behind)) := by simp
      rw [htext, skipGap, skipGap_blockComment _ _ _ hbody, ← Position.past_append]
      rfl

end Text

open Text

/-! ## Lexemes in front of a blank -/

theorem Symbol.endsAt_of_parts (s : Symbol) {rest : List Char} (h : Parts rest) :
    s.EndsAt rest := by
  have hall : ∀ s ∈ all, s.continuations.all (fun d => !isBlank d) = true := by decide +kernel
  intro d hd hmem
  have hblank := List.all_eq_true.mp (hall s s.mem_all) d hmem
  rw [h d hd] at hblank
  cases hblank

theorem floatLexeme_of_suffix {chars suffix rest : List Char} (hsuffix : IsSuffix suffix)
    (h : Stops rest) :
    floatLexeme chars (suffix ++ rest) = ⟨.ok .float, chars ++ suffix, rest⟩ := by
  rcases hsuffix with rfl | rfl | rfl
  · rw [List.nil_append, List.append_nil, floatLexeme_of_stops h]
  · rfl
  · rfl

/-- Behind the digits of a float there is its suffix, or nothing that could go on with it. -/
theorem Text.Stops.head?_suffix {suffix rest : List Char} (hsuffix : IsSuffix suffix)
    (h : Stops rest) : ∀ c ∈ (suffix ++ rest).head?, c.isDigit = false ∧ ¬ IsMark c := by
  rcases hsuffix with rfl | hletter
  · intro c hc
    refine ⟨(h.head? c hc).1, ?_⟩
    have hpart := (h c hc).1
    rintro (rfl | rfl) <;> exact absurd hpart (by decide)
  · exact LoopNest.head?_suffix hletter rest

/-- A number is taken as it is where nothing goes on with it. -/
theorem Text.IsNumber.scanNumber_eq {k : Token.Kind} {cs rest : List Char} (h : IsNumber k cs)
    (hrest : Stops rest) : scanNumber (cs ++ rest) = ⟨.ok k, cs, rest⟩ := by
  cases h with
  | integer digits => exact scanNumber_integer digits hrest
  | @decimal d e ds es suffix whole fraction hsuffix =>
    have hbehind := hrest.head?_suffix hsuffix
    obtain ⟨he, hes⟩ := List.forall_mem_cons.mp fraction
    have htext : d :: ds ++ '.' :: (e :: es ++ suffix) ++ rest =
        d :: ds ++ '.' :: e :: (es ++ (suffix ++ rest)) := by simp
    have hwhole : splitDigits (d :: ds ++ '.' :: e :: (es ++ (suffix ++ rest))) =
        (d :: ds, '.' :: e :: (es ++ (suffix ++ rest))) :=
      splitDigits_eq whole fun c hc => Option.some.inj hc ▸ rfl
    have hfraction : splitFraction ('.' :: e :: (es ++ (suffix ++ rest))) =
        ('.' :: e :: es, suffix ++ rest) := by
      rw [splitFraction, if_pos he, splitDigits_eq hes fun c hc => (hbehind c hc).1]
    rw [htext, scanNumber_unmarked hwhole hfraction fun c hc => (hbehind c hc).2,
      List.isEmpty_cons, if_neg Bool.false_ne_true, floatLexeme_of_suffix hsuffix hrest]
    simp
  | @scientific mantissa sign ds suffix mark d number hmark hsign digits hsuffix =>
    have hbehind := hrest.head?_suffix hsuffix
    have htext : mantissa ++ mark :: (sign ++ (d :: ds ++ suffix)) ++ rest =
        mantissa ++ mark :: (sign ++ d :: (ds ++ (suffix ++ rest))) := by simp
    have hsplit : splitDigits (d :: (ds ++ (suffix ++ rest))) = (d :: ds, suffix ++ rest) :=
      splitDigits_eq digits fun c hc => (hbehind c hc).1
    rw [htext, scanNumber_mantissa number hmark,
      scanExponent_of_starts hsign (digits d List.mem_cons_self), hsplit,
      floatLexeme_of_suffix hsuffix hrest]
    simp

theorem Text.isBlank_of_isDigit {c : Char} (h : c.isDigit = true) : isBlank c = false := by
  cases hblank : isBlank c with
  | false => rfl
  | true =>
    have hpart := isIdentifierPart_of_isBlank hblank
    rw [(isDigit_isPart h).1] at hpart
    cases hpart

/-- There are no blanks in a number. -/
theorem Text.IsNumber.not_blank {k : Token.Kind} {cs : List Char} (h : IsNumber k cs) :
    ∀ c ∈ cs, isBlank c = false := by
  have hdigits {ds : List Char} (hds : IsDigits ds) : ∀ c ∈ ds, isBlank c = false := fun c hc =>
    isBlank_of_isDigit (hds c hc)
  have hsuffix {suffix : List Char} (hs : IsSuffix suffix) : ∀ c ∈ suffix, isBlank c = false := by
    rcases hs with rfl | rfl | rfl
    · exact List.forall_mem_nil _
    · exact List.forall_mem_singleton.mpr rfl
    · exact List.forall_mem_singleton.mpr rfl
  have hsign {sign : List Char} (hs : IsSign sign) : ∀ c ∈ sign, isBlank c = false := by
    rcases hs with rfl | rfl | rfl
    · exact List.forall_mem_nil _
    · exact List.forall_mem_singleton.mpr rfl
    · exact List.forall_mem_singleton.mpr rfl
  have hfraction {fraction : List Char} (hs : IsFraction fraction) :
      ∀ c ∈ fraction, isBlank c = false := by
    rcases hs with rfl | ⟨d, ds, rfl, hds⟩
    · exact List.forall_mem_nil _
    · exact List.forall_mem_cons.mpr ⟨rfl, hdigits hds⟩
  cases h with
  | integer digits => exact hdigits digits
  | decimal whole fraction hs =>
    refine List.forall_mem_append.mpr ⟨hdigits whole, List.forall_mem_cons.mpr ⟨rfl, ?_⟩⟩
    exact List.forall_mem_append.mpr ⟨hdigits fraction, hsuffix hs⟩
  | scientific number hmark hs digits hs' =>
    obtain ⟨d, ds, fraction, rfl, whole, hf⟩ := number
    refine List.forall_mem_append.mpr ⟨List.forall_mem_append.mpr ⟨hdigits whole, hfraction hf⟩,
      List.forall_mem_cons.mpr ⟨by rcases hmark with rfl | rfl <;> rfl, ?_⟩⟩
    exact List.forall_mem_append.mpr ⟨hsign hs,
      List.forall_mem_append.mpr ⟨hdigits digits, hsuffix hs'⟩⟩

/-- A lexeme is read as it is in front of a blank. -/
theorem Token.IsLexeme.fits {k : Token.Kind} {cs rest : List Char} (h : IsLexeme k cs)
    (hrest : Parts rest) : (⟨k, String.ofList cs⟩ : Word).Fits cs rest := by
  cases h with
  | symbol s => exact Word.fits_symbol (s.endsAt_of_parts hrest)
  | keyword word =>
    rw [String.ofList_toList]
    exact Word.fits_keyword word hrest.stops
  | name hname =>
    rw [String.ofList_toList]
    exact Word.fits_name hname hrest.stops
  | number hnumber =>
    have hnewline : '\n' ∉ cs := fun hmem => absurd (hnumber.not_blank _ hmem) (by decide)
    have hscan (rest' : List Char) (h' : Stops rest') := hnumber.scanNumber_eq h'
    have hkind : k ≠ .endOfFile := by
      rw [hnumber.kind_eq]
      split <;> decide
    obtain ⟨d, ds, rfl, hd⟩ := hnumber.exists_digit
    exact Word.fits_number hd hkind (fun hmem => hnewline (List.mem_cons_of_mem d hmem)) hscan
      hrest.stops

/-! ## What is read -/

theorem Text.Joined.exists_rest {s : String} {ss : List String} {cs : List Char}
    (h : Joined (s :: ss) cs) : ∃ rest, cs = s.toList ++ rest ∧
      (ss = [] ∧ rest = [] ∨
        ∃ gap more, rest = gap ++ more ∧ IsSeparator gap ∧ Joined ss more) := by
  cases h with
  | single => exact ⟨[], (List.append_nil _).symm, .inl ⟨rfl, rfl⟩⟩
  | @cons _ _ _ gap more hgap hmore => exact ⟨gap ++ more, rfl, .inr ⟨gap, more, rfl, hgap, hmore⟩⟩

/-- The text has a character for each lexeme. -/
theorem Text.Joined.length_le {ss tail : List String} (hss : ∀ s ∈ ss, s.toList ≠ [])
    {cs : List Char} (h : Joined (ss ++ tail) cs) : ss.length ≤ cs.length := by
  induction ss generalizing cs with
  | nil => exact Nat.zero_le _
  | cons s ss ih =>
    obtain ⟨hs, hss⟩ := List.forall_mem_cons.mp hss
    have hpos := List.length_pos_iff.mpr hs
    obtain ⟨rest, rfl, hrest⟩ := h.exists_rest
    rw [List.length_append, List.length_cons]
    rcases hrest with ⟨hnil, -⟩ | ⟨gap, more, rfl, -, hmore⟩
    · obtain ⟨rfl, -⟩ := List.append_eq_nil_iff.mp hnil
      rw [List.length_nil]
      omega
    · have hle := ih hss hmore
      rw [List.length_append]
      omega

namespace Cursor

/-- Behind a gap the next item is the same. -/
theorem next_of_isGap {gap rest : List Char} (h : IsGap rest gap) (p : Position) :
    next ⟨p, gap ++ rest⟩ = next ⟨p.past gap, rest⟩ := by
  simp only [next, h.skipGap_eq p]

/-- A word behind a gap is taken, and the rest is read from behind it. -/
theorem items_of_fits {w : Word} {gap cs rest : List Char} (hgap : IsGap (cs ++ rest) gap)
    (hw : w.Fits cs rest) (n : Nat) (p : Position) : ∃ t : Token, t.word = w ∧
      items (n + 1) ⟨p, gap ++ (cs ++ rest)⟩ =
        .token t :: items n ⟨(p.past gap).past cs, rest⟩ := by
  let t : Token := ⟨w.kind, ⟨p.past gap, (p.past gap).past cs⟩, w.lexeme⟩
  have hend : (Item.token t).isEnd = false := by
    simpa [Item.isEnd, Token.isEnd, t] using hw.kind_ne
  refine ⟨t, rfl, ?_⟩
  rw [items, next_of_isGap hgap, hw.next]
  simp only [hend, t]
  rfl

/-- Behind the last gap there is the end of the file. -/
theorem items_of_isGap {gap : List Char} (h : IsGap [] gap) (n : Nat) (p : Position) :
    ∃ t : Token, t.word = .endOfFile ∧ items (n + 1) ⟨p, gap⟩ = [.token t] := by
  have hnext := next_of_isGap h p
  rw [List.append_nil] at hnext
  exact ⟨⟨.endOfFile, ⟨p.past gap, p.past gap⟩, ""⟩, rfl, by rw [items, hnext]; rfl⟩

end Cursor

/-- The text of these words, with separators between them and perhaps one behind them, has these
words. -/
theorem Text.Joined.items {ws : List Word}
    (hws : ∀ w ∈ ws, Token.IsLexeme w.kind w.lexeme.toList) {cs : List Char}
    (h : Joined (ws.map Word.lexeme) cs ∨ Joined (ws.map Word.lexeme ++ [""]) cs)
    {gap : List Char} (hgap : IsLayout gap) {n : Nat} (hn : ws.length < n) (p : Position) :
    ∃ us : List Token, Cursor.items n ⟨p, gap ++ cs⟩ = us.map .token ∧
      us.map Token.word = ws ++ [.endOfFile] := by
  obtain ⟨n, rfl⟩ := Nat.exists_eq_succ_of_ne_zero (Nat.ne_of_gt (Nat.zero_lt_of_lt hn))
  induction ws generalizing cs gap n p with
  | nil =>
    have hcs : cs = [] := by
      rcases h with h | h <;> cases h <;> rfl
    rw [hcs, List.append_nil]
    obtain ⟨t, ht, hitems⟩ := Cursor.items_of_isGap (hgap.isGap []) n p
    exact ⟨[t], hitems, by rw [List.map_singleton, ht]; rfl⟩
  | cons w ws ih =>
    obtain ⟨hw, hws⟩ := List.forall_mem_cons.mp hws
    -- behind the word the text ends, or a separator and the other words stand there
    obtain ⟨rest, rfl, hrest⟩ : ∃ rest, cs = w.lexeme.toList ++ rest ∧
        (ws = [] ∧ rest = [] ∨ ∃ gap more, rest = gap ++ more ∧ IsSeparator gap ∧
          (Joined (ws.map Word.lexeme) more ∨ Joined (ws.map Word.lexeme ++ [""]) more)) := by
      rcases h with h | h
      · obtain ⟨rest, rfl, hrest⟩ := h.exists_rest
        rcases hrest with ⟨hnil, rfl⟩ | ⟨gap, more, rfl, hsep, hmore⟩
        · exact ⟨[], rfl, .inl ⟨List.map_eq_nil_iff.mp hnil, rfl⟩⟩
        · exact ⟨_, rfl, .inr ⟨gap, more, rfl, hsep, .inl hmore⟩⟩
      · obtain ⟨rest, rfl, hrest⟩ := h.exists_rest
        rcases hrest with ⟨hnil, -⟩ | ⟨gap, more, rfl, hsep, hmore⟩
        · simp at hnil
        · exact ⟨_, rfl, .inr ⟨gap, more, rfl, hsep, .inr hmore⟩⟩
    have hparts : Parts rest := by
      rcases hrest with ⟨-, rfl⟩ | ⟨sep, more, rfl, hsep, -⟩
      · exact fun c hc => absurd hc (Option.not_mem_none c)
      · exact hsep.parts more
    have hfits := hw.fits hparts
    rw [String.ofList_toList] at hfits
    obtain ⟨n, rfl⟩ := Nat.exists_eq_succ_of_ne_zero (Nat.ne_of_gt (Nat.zero_lt_of_lt
      (Nat.lt_of_succ_lt_succ hn)))
    obtain ⟨t, ht, hitems⟩ := Cursor.items_of_fits (hgap.isGap _) hfits (n + 1) p
    have hlength : ws.length < n + 1 := Nat.lt_of_succ_lt_succ hn
    obtain ⟨us, hus, hwords⟩ : ∃ us : List Token,
        Cursor.items (n + 1) ⟨(p.past gap).past w.lexeme.toList, rest⟩ = us.map .token ∧
          us.map Token.word = ws ++ [.endOfFile] := by
      rcases hrest with ⟨rfl, rfl⟩ | ⟨sep, more, rfl, hsep, hmore⟩
      · exact ih hws (.inl .nil) .nil _ n hlength
      · exact ih hws hmore hsep.layout _ n hlength
    refine ⟨t :: us, ?_, ?_⟩
    · rw [hitems, hus, List.map_cons]
    · rw [List.map_cons, hwords, ht, List.cons_append]

/-! ## The words of a source -/

/-- A token is a text of the token language, or the end of the file. -/
theorem Cursor.isLexeme_of_next {c : Cursor} {t : Token} (h : c.next.1 = .token t) :
    Token.IsLexeme t.kind t.lexeme.toList ∨ t.word = .endOfFile := by
  unfold next at h
  split at h
  · cases h
  · cases h
    exact .inr rfl
  · next p d cs _ =>
    have hsound := scanLexeme_sound d cs
    dsimp only [Lexeme.item] at h
    split at h
    · next k hverdict =>
      rw [hverdict] at hsound
      cases h
      rw [String.toList_ofList]
      exact .inl hsound
    · cases h

theorem Token.IsLexeme.kind_ne {k : Token.Kind} {cs : List Char} (h : IsLexeme k cs) :
    k ≠ .endOfFile := by
  have hparts : Parts [] := fun c hc => absurd hc (Option.not_mem_none c)
  exact (h.fits hparts).kind_ne

/-- The tokens up to the end of the text are texts of the token language and the end of the
file. -/
theorem Cursor.exists_words {n : Nat} {c : Cursor} (hn : c.rest.length < n) {ts : List Token}
    (h : c.items n = ts.map .token) : ∃ ws : List Word,
      (∀ w ∈ ws, Token.IsLexeme w.kind w.lexeme.toList) ∧
        ts.map Token.word = ws ++ [.endOfFile] := by
  induction n generalizing c ts with
  | zero => exact absurd hn (Nat.not_lt_zero _)
  | succ n ih =>
    rw [items] at h
    dsimp only at h
    cases ts with
    | nil => split at h <;> cases h
    | cons t ts =>
      split at h
      · next hend =>
        obtain ⟨hnext, hts⟩ := List.cons.inj h
        obtain rfl : [] = ts := (List.map_eq_nil_iff.mp hts.symm).symm
        rw [hnext] at hend
        have hkind : t.kind = .endOfFile := eq_of_beq hend
        rcases isLexeme_of_next hnext with hlexeme | hword
        · exact absurd hkind hlexeme.kind_ne
        · exact ⟨[], List.forall_mem_nil _, by rw [List.map_singleton, hword]; rfl⟩
      · next hend =>
        obtain ⟨hnext, hts⟩ := List.cons.inj h
        have hlt := c.next_rest_lt (Bool.eq_false_iff.mpr hend)
        obtain ⟨ws, hws, hwords⟩ := ih (Nat.lt_of_lt_of_le hlt (Nat.le_of_lt_succ hn)) hts
        rw [hnext] at hend
        rcases isLexeme_of_next hnext with hlexeme | hword
        · exact ⟨t.word :: ws, List.forall_mem_cons.mpr ⟨hlexeme, hws⟩,
            by rw [List.map_cons, hwords, List.cons_append]⟩
        · have hkind : t.kind = .endOfFile := congrArg Word.kind hword
          exact absurd (beq_iff_eq.mpr hkind) hend

/-- The tokens of a source are texts of the token language, and the end of the file behind them. -/
theorem exists_words_of_tokenize {source : String} {ts : List Token}
    (h : tokenize source = .ok ts) : ∃ ws : List Word,
      (∀ w ∈ ws, Token.IsLexeme w.kind w.lexeme.toList) ∧
        ts.map Token.word = ws ++ [.endOfFile] :=
  Cursor.exists_words (Nat.lt_succ_of_le (Nat.le_of_eq String.length_toList)) (scan_of_tokenize h)

/-- **Any spacing has the same words.** Where the lexemes of a source stand in their order in a
text, with blanks and complete comments between any two of them and a blank behind each, the text
has tokens, with the same kinds and lexemes. It does not matter whether there is a separator between
the last lexeme and the end of the file. -/
theorem tokenize_joined {source text : String} {ts : List Token} (h : tokenize source = .ok ts)
    (htext : Joined (ts.map Token.lexeme) text.toList ∨
      Joined (ts.dropLast.map Token.lexeme) text.toList) :
    ∃ us, tokenize text = .ok us ∧ us.map Token.word = ts.map Token.word := by
  obtain ⟨ws, hws, hwords⟩ := exists_words_of_tokenize h
  have hlexemes : ts.map Token.lexeme = ws.map Word.lexeme ++ [""] := by
    have hmap := congrArg (List.map Word.lexeme) hwords
    rwa [List.map_map, List.map_append] at hmap
  have hinit : ts.dropLast.map Token.lexeme = ws.map Word.lexeme := by
    rw [List.map_dropLast, hlexemes, List.dropLast_concat]
  rw [hlexemes, hinit] at htext
  have hlength : ws.length ≤ text.toList.length := by
    have hne : ∀ s ∈ ws.map Word.lexeme, s.toList ≠ [] := by
      intro s hs
      obtain ⟨w, hw, rfl⟩ := List.mem_map.mp hs
      obtain ⟨c, cs, hchars, -⟩ := (hws w hw).cases_first
      rw [hchars]
      exact List.cons_ne_nil c cs
    have hmap : (ws.map Word.lexeme).length ≤ text.toList.length := by
      rcases htext with htext | htext
      · exact htext.length_le hne
      · rw [← List.append_nil (ws.map Word.lexeme)] at htext
        exact htext.length_le hne
    rwa [List.length_map] at hmap
  rw [String.length_toList] at hlength
  obtain ⟨us, hscan, hus⟩ :=
    Joined.items hws htext.symm .nil (Nat.lt_succ_of_le hlength) Position.start
  exact ⟨us, tokenize_of_scan hscan, hus.trans hwords.symm⟩

/-- Comments between a slash and a star, and behind the last lexeme. -/
theorem tokenize_joined_comments :
    let source := "x/ *1.5f"
    let text := "x /\t/*/*/* // *\n1.5f // end\n"
    ∃ ts us, tokenize source = .ok ts ∧ Joined (ts.map Token.lexeme) text.toList ∧
      tokenize text = .ok us ∧ us.map Token.word = ts.map Token.word := by
  intro source text
  have hlexemes : (tokenize source).toOption.map (List.map Token.lexeme) =
      some ["x", "/", "*", "1.5f", ""] := by
    decide +kernel
  obtain ⟨ts, hts, hmap⟩ := Option.map_eq_some_iff.mp hlexemes
  have htokens : tokenize source = .ok ts := by
    cases htokenize : tokenize source with
    | error f =>
      rw [htokenize] at hts
      cases hts
    | ok us =>
      rw [htokenize] at hts
      rw [Option.some.inj hts]
  have hspace : IsSeparator [' '] := ⟨.blank rfl .nil, ' ', rfl, rfl⟩
  have hblock : IsSeparator "\t/*/*/".toList :=
    ⟨.blank rfl (.block (by decide : ¬ ['*', '/'] <:+: ['/']) .nil), '\t', rfl, rfl⟩
  have hline : IsSeparator " // *\n".toList :=
    ⟨.blank rfl (.line (by decide : '\n' ∉ [' ', '*']) .nil), ' ', rfl, rfl⟩
  have hend : IsSeparator " // end\n".toList :=
    ⟨.blank rfl (.line (by decide : '\n' ∉ [' ', 'e', 'n', 'd']) .nil), ' ', rfl, rfl⟩
  have hjoined : Joined (ts.map Token.lexeme) text.toList := by
    have htext : text.toList = "x".toList ++ ([' '] ++ ("/".toList ++ ("\t/*/*/".toList ++
        ("*".toList ++ (" // *\n".toList ++ ("1.5f".toList ++ (" // end\n".toList ++
          "".toList))))))) := by
      decide +kernel
    rw [hmap, htext]
    exact .cons hspace (.cons hblock (.cons hline (.cons hend (.single ""))))
  obtain ⟨us, hus, hwords⟩ := tokenize_joined htokens (.inl hjoined)
  exact ⟨ts, us, htokens, hjoined, hus, hwords⟩

end LoopNest
