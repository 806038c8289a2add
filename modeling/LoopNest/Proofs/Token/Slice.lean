import LoopNest.Proofs.Token.Extent
import LoopNest.Proofs.Token.Respacing

/-!
# Tokens of a part of a source

The text from the start of one token to the end of another one has the words of these tokens and of
those between them. What stands in front of it and behind it does not matter.

* `scanLexeme_front`: a lexeme is found in every front of the text that has all of it.
* `Text.ReadsAs`: the words of a text that starts and stops with a lexeme.
* `Cursor.exists_body`: tokens in a row are those of such a text.
* `Span.textIn`: the part of a text in a span.
* `tokenize_slice`: the tokens of a part of a source.
-/

namespace LoopNest

open Text

/-! ## Fronts of a text -/

/-- What is no token is none with more text behind it, unless that is needed for a longer token. -/
theorem Text.IsDefective.append {c : Char} {cs more : List Char} (h : IsDefective (c :: cs))
    (hfront : (scanLexeme c (cs ++ more)).chars <+: c :: cs) : IsDefective (c :: (cs ++ more)) := by
  generalize htext : c :: cs = text at h
  cases h with
  | @halfOperator c' cs' hc h =>
    obtain ⟨rfl, rfl⟩ := List.cons.inj htext
    refine .halfOperator hc fun hhead => ?_
    cases cs with
    | cons d cs => exact h hhead
    | nil =>
      obtain ⟨more, rfl⟩ := List.head?_eq_some_iff.mp hhead
      have hlexeme : ∃ k, Token.IsLexeme k [c, c] := by
        rcases hc with rfl | rfl
        · exact ⟨_, .symbol .ampAmp⟩
        · exact ⟨_, .symbol .pipePipe⟩
      obtain ⟨k, hk⟩ := hlexeme
      have hle := ((hk.isPrefix more).trans hfront).length_le
      simp at hle
  | @strayChar c' cs' h =>
    obtain ⟨rfl, rfl⟩ := List.cons.inj htext
    exact .strayChar h
  | @bareExponent mantissa rest mark number hmark h =>
    have happend : c :: (cs ++ more) = mantissa ++ mark :: (rest ++ more) := by
      rw [← List.cons_append, htext, List.append_assoc, List.cons_append]
    rw [happend]
    refine .bareExponent number hmark fun hstarts => h ?_
    obtain ⟨sign, d, ds, heq, hsign, hd⟩ := hstarts
    -- the first digit makes a number that is taken in any case
    have hnumber : IsNumber .float (mantissa ++ mark :: (sign ++ ([d] ++ []))) :=
      .scientific number hmark hsign (List.forall_mem_singleton.mpr hd) (.inl rfl)
    rw [List.append_nil] at hnumber
    obtain ⟨e, es, hfirst, -⟩ := hnumber.exists_digit
    have hlexeme : Token.IsLexeme .float (e :: es) := hfirst ▸ .number hnumber
    have hwhole : c :: (cs ++ more) = e :: (es ++ ds) := by
      rw [← List.cons_append (a := e), ← hfirst, happend, heq]
      simp
    obtain ⟨rfl, htail⟩ := List.cons.inj hwhole
    have hprefix := (hlexeme.isPrefix ds).trans (htail ▸ hfront)
    rw [htext, ← hfirst, List.prefix_append_right_inj, List.cons_prefix_cons] at hprefix
    obtain ⟨tail, htail⟩ := hprefix.2
    exact ⟨sign, d, tail, by rw [← htail, List.append_assoc, List.singleton_append], hsign, hd⟩

/-- A lexeme is found in every front of the text that has all of it. -/
theorem scanLexeme_front {d : Char} {cs more : List Char} {k : Token.Kind}
    (h : (scanLexeme d (cs ++ more)).verdict = .ok k)
    (hfront : (scanLexeme d (cs ++ more)).chars <+: d :: cs) :
    (scanLexeme d cs).verdict = .ok k ∧
      (scanLexeme d cs).chars = (scanLexeme d (cs ++ more)).chars := by
  have hlexeme := scanLexeme_sound d (cs ++ more)
  rw [h] at hlexeme
  have hsound := scanLexeme_sound d cs
  have happend : (scanLexeme d cs).chars ++ (scanLexeme d cs).rest = d :: cs := scanLexeme_append d cs
  have hle : (scanLexeme d (cs ++ more)).chars <+: (scanLexeme d cs).chars := by
    obtain ⟨e, es, hchars, -⟩ := hlexeme.cases_first
    obtain ⟨tail, htail⟩ := hfront
    rw [hchars] at hlexeme htail ⊢
    obtain ⟨rfl, rfl⟩ := List.cons.inj htail
    exact hlexeme.isPrefix tail
  cases hverdict : (scanLexeme d cs).verdict with
  | error cause =>
    rw [hverdict] at hsound
    obtain ⟨cause', herror⟩ := (IsDefective.append hsound hfront).verdict
    rw [h] at herror
    cases herror
  | ok k' =>
    rw [hverdict] at hsound
    have hge : (scanLexeme d cs).chars <+: (scanLexeme d (cs ++ more)).chars := by
      obtain ⟨e, es, hchars, -⟩ := Token.IsLexeme.cases_first hsound
      rw [hchars] at hsound happend ⊢
      obtain ⟨rfl, htail⟩ := List.cons.inj happend
      have htail : es ++ ((scanLexeme e cs).rest ++ more) = cs ++ more := by
        rw [← List.append_assoc]
        exact congrArg (· ++ more) htail
      exact htail ▸ Token.IsLexeme.isPrefix hsound _
    have heq := hge.eq_of_length_le hle.length_le
    refine ⟨?_, heq⟩
    rw [heq] at hsound
    rw [Token.IsLexeme.kind_eq hsound hlexeme]

/-- Of what stands behind a gap only the first character matters. -/
theorem Text.IsGap.congr {gap behind behind' : List Char} (h : IsGap behind gap)
    (hhead : behind'.head? = behind.head?) : IsGap behind' gap := by
  induction h with
  | nil => exact .nil
  | blank hc _ ih => exact .blank hc ih
  | @comment body gap hbody _ ih =>
    have hfirst : (gap ++ behind').head? = (gap ++ behind).head? := by
      rw [List.head?_append, List.head?_append, hhead]
    cases hbody with
    | line hline hbehind => exact .comment (.line hline (hfirst ▸ hbehind)) ih
    | block hblock => exact .comment (.block hblock) ih

namespace Cursor

/-- Where a lexeme stands at the front of a text, one stands at every front of the text. -/
theorem AtLexeme.front {p q : Position} {text front : List Char} (h : AtLexeme ⟨p, text⟩)
    (hne : front ≠ []) (hfront : front <+: text) : AtLexeme ⟨q, front⟩ := by
  obtain ⟨-, hblank, hline, hblock⟩ := h
  refine ⟨hne, fun d hd => hblank d ?_, fun hp => hline (hp.trans hfront),
    fun hp => hblock (hp.trans hfront)⟩
  obtain ⟨ds, rfl⟩ := List.head?_eq_some_iff.mp hd
  obtain ⟨more, rfl⟩ := hfront
  rfl

/-- Where nothing is passed over, a lexeme stands. -/
theorem atLexeme_of_skipGap {p : Position} {d : Char} {cs : List Char}
    (h : skipGap .blank p (d :: cs) = .ok ⟨p, d :: cs⟩) : AtLexeme ⟨p, d :: cs⟩ := by
  have hle {g : Gap} {q : Position} {ds : List Char} {c : Cursor} (hskip : skipGap g q ds = .ok c) :
      c.rest.length ≤ ds.length := by
    have hle := skipGap_rest_le g q ds
    rw [hskip] at hle
    exact hle c rfl
  refine ⟨List.cons_ne_nil _ _, fun e he => ?_, ?_, ?_⟩
  · obtain rfl : d = e := Option.some.inj he
    by_contra hblank
    rw [Bool.not_eq_false] at hblank
    rw [skipGap_of_blank hblank] at h
    exact absurd (hle h) (by simp)
  · rintro ⟨ds, htext⟩
    have htext : '/' :: '/' :: ds = d :: cs := htext
    rw [← htext, skipGap] at h
    have hlength := hle h
    simp only [List.length_cons] at hlength
    omega
  · rintro ⟨ds, htext⟩
    have htext : '/' :: '*' :: ds = d :: cs := htext
    rw [← htext, skipGap] at h
    have hlength := hle h
    simp only [List.length_cons] at hlength
    omega

/-- A token is cut off behind a gap, where a lexeme stands. -/
theorem exists_lexeme {c : Cursor} {t : Token} (h : c.next.1 = .token t) (ht : t.isEnd = false) :
    ∃ gap d cs, c.rest = gap ++ d :: cs ∧ IsGap (d :: cs) gap ∧
      AtLexeme ⟨c.position.past gap, d :: cs⟩ ∧
      (scanLexeme d cs).item (c.position.past gap) = .token t ∧
      c.next.2 = ⟨(c.position.past gap).past (scanLexeme d cs).chars, (scanLexeme d cs).rest⟩ := by
  have hpassed := skipGap_passed c.position c.rest
  unfold next at h ⊢
  generalize hresult : skipGap .blank c.position c.rest = result at h hpassed ⊢
  generalize htext : c.rest = text at hpassed ⊢
  cases hpassed with
  | @«open» gap body hgap hbody => cases h
  | @behind gap rest hgap =>
    cases rest with
    | nil =>
      obtain rfl := Item.token.inj h
      cases ht
    | cons d cs =>
      refine ⟨gap, d, cs, rfl, hgap, atLexeme_of_skipGap ?_, h, rfl⟩
      rw [← hgap.skipGap_eq, ← htext, hresult]

end Cursor

/-! ## Texts that start and stop with a lexeme -/

/-- The text alone has these words, wherever it starts. -/
structure Text.ReadsAs (body : List Char) (ws : List Word) : Prop where
  nonempty : body ≠ []
  length_le : ws.length ≤ body.length
  items (n : Nat) (p : Position) (hn : ws.length < n) : ∃ us : List Token,
    Cursor.items n ⟨p, body⟩ = us.map .token ∧ us.map Token.word = ws ++ [.endOfFile]

namespace Cursor

/-- The first token of a front is that of the text, if the front has all of it. -/
theorem next_front {p q : Position} {d : Char} {cs more : List Char} {t : Token}
    (h : AtLexeme ⟨p, d :: (cs ++ more)⟩)
    (ht : (scanLexeme d (cs ++ more)).item p = .token t)
    (hfront : (scanLexeme d (cs ++ more)).chars <+: d :: cs) :
    ∃ u, next ⟨q, d :: cs⟩ = (.token u, ⟨u.span.stop, (scanLexeme d cs).rest⟩) ∧ u.word = t.word ∧
      (scanLexeme d cs).chars = t.lexeme.toList := by
  have hat : AtLexeme ⟨q, d :: cs⟩ := h.front (List.cons_ne_nil _ _) ⟨more, rfl⟩
  obtain ⟨e, es, htext, hnext⟩ := hat.next_eq
  obtain ⟨rfl, rfl⟩ := List.cons.inj htext
  unfold Lexeme.item at ht
  cases hverdict : (scanLexeme d (cs ++ more)).verdict with
  | error cause => simp [hverdict] at ht
  | ok k =>
    obtain ⟨hok, hchars⟩ := scanLexeme_front hverdict hfront
    simp only [hverdict, Item.token.injEq] at ht
    subst ht
    rw [hnext, Lexeme.item, hok]
    refine ⟨_, rfl, ?_, ?_⟩
    · rw [Token.word, Token.word, hchars]
    · rw [String.toList_ofList, hchars]

theorem items_cons {p q : Position} {cs rest : List Char} {t : Token} {n : Nat}
    (h : next ⟨p, cs⟩ = (.token t, ⟨q, rest⟩)) (ht : t.isEnd = false) :
    items (n + 1) ⟨p, cs⟩ = .token t :: items n ⟨q, rest⟩ := by
  have hend : (Item.token t).isEnd = false := ht
  rw [items_succ, h, if_neg (by rw [hend]; exact Bool.false_ne_true)]

/-- Behind a gap the items are the same. -/
theorem items_of_gap {gap rest : List Char} (h : IsGap rest gap) (n : Nat) (p : Position) :
    items n ⟨p, gap ++ rest⟩ = items n ⟨p.past gap, rest⟩ := by
  cases n with
  | zero => rfl
  | succ n => rw [items_succ, items_succ, next_of_isGap h]

end Cursor

/-- The text `tail` behind a lexeme has these words, with gaps in front of them perhaps. -/
def Text.TailReadsAs (tail : List Char) (ws : List Word) : Prop :=
  ws.length ≤ tail.length ∧ ∀ n p, ws.length < n → ∃ us : List Token,
    Cursor.items n ⟨p, tail⟩ = us.map .token ∧ us.map Token.word = ws ++ [.endOfFile]

theorem Text.TailReadsAs.nil : TailReadsAs [] [] := by
  refine ⟨Nat.le_refl 0, fun n p hn => ?_⟩
  obtain ⟨n, rfl⟩ := Nat.exists_eq_succ_of_ne_zero (Nat.ne_of_gt hn)
  obtain ⟨t, ht, hitems⟩ := Cursor.items_of_isGap .nil n p
  exact ⟨[t], hitems, by rw [List.map_singleton, ht]; rfl⟩

theorem Text.ReadsAs.tail {gap body : List Char} {ws : List Word} (h : ReadsAs body ws)
    (hgap : IsGap body gap) : TailReadsAs (gap ++ body) ws := by
  refine ⟨?_, fun n p hn => ?_⟩
  · have hle := h.length_le
    rw [List.length_append]
    omega
  · rw [Cursor.items_of_gap hgap]
    exact h.items n _ hn

/-- A lexeme and the text behind it. -/
theorem Text.ReadsAs.cons {p : Position} {d : Char} {cs tail more : List Char} {t : Token}
    {ws : List Word} (hat : Cursor.AtLexeme ⟨p, d :: (cs ++ more)⟩)
    (ht : (scanLexeme d (cs ++ more)).item p = .token t) (hend : t.isEnd = false)
    (htext : d :: cs = t.lexeme.toList ++ tail) (htail : TailReadsAs tail ws) :
    ReadsAs (d :: cs) (t.word :: ws) := by
  have hchars : t.lexeme.toList = (scanLexeme d (cs ++ more)).chars := by
    rw [Lexeme.lexeme_of_item ht, String.toList_ofList]
  have hfront : (scanLexeme d (cs ++ more)).chars <+: d :: cs := by
    rw [htext, hchars]
    exact List.prefix_append _ tail
  obtain ⟨hlength, hitems⟩ := htail
  refine ⟨List.cons_ne_nil _ _, ?_, fun n q hn => ?_⟩
  · have hpos := List.length_pos_iff.mpr (scanLexeme_chars_ne d (cs ++ more))
    rw [htext, List.length_append, hchars, List.length_cons]
    omega
  · obtain ⟨n, rfl⟩ := Nat.exists_eq_succ_of_ne_zero (Nat.ne_of_gt (Nat.zero_lt_of_lt hn))
    obtain ⟨u, hnext, hword, hlexeme⟩ := Cursor.next_front (q := q) hat ht hfront
    have hrest : (scanLexeme d cs).rest = tail := by
      have happend : (scanLexeme d cs).chars ++ (scanLexeme d cs).rest = d :: cs :=
        scanLexeme_append d cs
      rw [hlexeme, htext] at happend
      exact List.append_cancel_left happend
    rw [hrest] at hnext
    have hend' : u.isEnd = false := by
      have hkind : u.kind = t.kind := congrArg Word.kind hword
      rwa [Token.isEnd, hkind]
    obtain ⟨us, hus, hwords⟩ := hitems n u.span.stop (Nat.lt_of_succ_lt_succ hn)
    refine ⟨u :: us, ?_, ?_⟩
    · rw [Cursor.items_cons hnext hend', hus, List.map_cons]
    · rw [List.map_cons, hwords, hword, List.cons_append]

namespace Cursor

theorem items_head {n : Nat} {c : Cursor} {t : Token} {rest : List Item}
    (h : c.items n = .token t :: rest) :
    c.next.1 = .token t ∧ (t.isEnd = false → ∃ m, c.next.2.items m = rest) := by
  cases n with
  | zero => cases h
  | succ n =>
    rw [items_succ] at h
    split at h
    · next hend =>
      obtain ⟨hnext, -⟩ := List.cons.inj h
      refine ⟨hnext, fun ht => ?_⟩
      rw [hnext] at hend
      exact absurd hend (by rw [Item.isEnd, ht]; exact Bool.false_ne_true)
    · obtain ⟨hnext, hrest⟩ := List.cons.inj h
      exact ⟨hnext, fun _ => ⟨n, hrest⟩⟩

/-- A token and what is read from the text behind it. -/
theorem exists_body_of_tail {c : Cursor} {t : Token} {tail more : List Char} {ws : List Word}
    (hnext : c.next.1 = .token t) (ht : t.isEnd = false) (hrest : c.next.2.rest = tail ++ more)
    (htail : TailReadsAs tail ws) :
    ∃ gap body, c.rest = gap ++ (body ++ more) ∧ IsGap (body ++ more) gap ∧
      t.span.start = c.position.past gap ∧ c.next.2.position = t.span.stop ∧
      t.span.stop.past tail = (c.position.past gap).past body ∧ ReadsAs body (t.word :: ws) := by
  obtain ⟨gap, d, cs, htext, hgap, hat, hitem, hcursor⟩ := exists_lexeme hnext ht
  have hspan := (scanLexeme d cs).item_span (c.position.past gap)
  rw [hitem] at hspan
  have hspan : t.span = ⟨c.position.past gap, (c.position.past gap).past (scanLexeme d cs).chars⟩ :=
    hspan
  have hlexeme : t.lexeme.toList = (scanLexeme d cs).chars := by
    rw [Lexeme.lexeme_of_item hitem, String.toList_ofList]
  have happend : (scanLexeme d cs).chars ++ (scanLexeme d cs).rest = d :: cs := scanLexeme_append d cs
  rw [hcursor] at hrest
  obtain ⟨e, es, hchars⟩ := List.exists_cons_of_ne_nil (scanLexeme_chars_ne d cs)
  rw [show (scanLexeme d cs).rest = tail ++ more from hrest, hchars, List.cons_append] at happend
  obtain ⟨rfl, htail'⟩ := List.cons.inj happend
  have hcs : cs = (es ++ tail) ++ more := by rw [← htail', List.append_assoc]
  rw [hcs] at htext hgap hat hitem
  refine ⟨gap, e :: (es ++ tail), htext, hgap, ?_, ?_, ?_, ?_⟩
  · rw [hspan]
  · rw [hcursor, hspan]
  · rw [hspan, hchars, ← Position.past_append, List.cons_append]
  · exact .cons hat hitem ht (by rw [hlexeme, hchars, List.cons_append]) htail

/-- Tokens in a row are those of a text that starts and stops with a lexeme. -/
theorem exists_body {n : Nat} {c : Cursor} {t : Token} {ts : List Token} {rest : List Item}
    (h : c.items n = (t :: ts).map .token ++ rest) (hend : ∀ u ∈ t :: ts, u.isEnd = false) :
    ∃ gap body more, c.rest = gap ++ (body ++ more) ∧ IsGap (body ++ more) gap ∧
      t.span.start = c.position.past gap ∧
      (∀ u ∈ (t :: ts).getLast?, u.span.stop = (c.position.past gap).past body) ∧
      ReadsAs body ((t :: ts).map Token.word) := by
  induction ts generalizing c t n with
  | nil =>
    have ht := hend t List.mem_cons_self
    obtain ⟨gap, body, htext, hgap, hstart, -, hstop, hreads⟩ :=
      exists_body_of_tail (items_head h).1 ht (List.nil_append _).symm .nil
    refine ⟨gap, body, _, htext, hgap, hstart, fun u hu => ?_, hreads⟩
    obtain rfl : t = u := Option.some.inj hu
    exact hstop
  | cons u ts ih =>
    obtain ⟨ht, hend⟩ := List.forall_mem_cons.mp hend
    obtain ⟨hnext, hitems⟩ := items_head h
    obtain ⟨m, hitems⟩ := hitems ht
    obtain ⟨gap, body, more, htext, hgap, -, hstop, hreads⟩ := ih hitems hend
    have hhead : body.head? = (body ++ more).head? := by
      obtain ⟨d, ds, rfl⟩ := List.exists_cons_of_ne_nil hreads.nonempty
      rfl
    have hrest : c.next.2.rest = (gap ++ body) ++ more := by rw [htext, List.append_assoc]
    obtain ⟨gap', body', htext', hgap', hstart', hposition, hstop', hreads'⟩ :=
      exists_body_of_tail hnext ht hrest (hreads.tail (hgap.congr hhead))
    refine ⟨gap', body', more, htext', hgap', hstart', fun v hv => ?_, hreads'⟩
    have hv : v ∈ (u :: ts).getLast? := hv
    rw [hstop v hv, hposition, ← hstop', Position.past_append]

/-- Behind tokens a cursor stands in the source as well. -/
theorem exists_after {source : String} {n : Nat} {c : Cursor} {before : List Char}
    {ts : List Token} {rest : List Item} (h : c.items n = ts.map .token ++ rest)
    (hend : ∀ t ∈ ts, t.isEnd = false) (hwithin : c.Within source before) :
    ∃ (c' : Cursor) (m : Nat) (before' : List Char), c'.items m = rest ∧ c'.Within source before' := by
  induction ts generalizing c n before with
  | nil => exact ⟨c, n, before, h, hwithin⟩
  | cons t ts ih =>
    obtain ⟨ht, hend⟩ := List.forall_mem_cons.mp hend
    obtain ⟨m, hitems⟩ := (items_head h).2 ht
    obtain ⟨gap, chars, hcut⟩ := c.next_cut
    exact ih hitems hend (hwithin.cut hcut)

end Cursor

/-! ## Parts of a source -/

/-- The part of a source text that a span tells. -/
def Span.textIn (s : Span) (source : String) : String :=
  String.Pos.Raw.extract source ⟨s.start.offset⟩ ⟨s.stop.offset⟩

/-- From the start of a token to the end of another one there are the words of the tokens from the
one to the other. -/
theorem tokenize_slice {source : String} {ts us vs : List Token} {s : Span}
    (h : scan source = (ts ++ (us ++ vs)).map .token) (hts : ∀ t ∈ ts, t.isEnd = false)
    (hus : ∀ t ∈ us, t.isEnd = false) (hs : s.Bounds us) :
    ∃ ws last, tokenize (s.textIn source) = .ok (ws ++ [last]) ∧ last.kind = .endOfFile ∧
      ws.map Token.word = us.map Token.word := by
  obtain ⟨t, us, rfl⟩ := List.exists_cons_of_ne_nil hs.ne_nil
  rw [List.map_append, List.map_append] at h
  have hstart : (Cursor.ofText source).Within source [] := ⟨rfl, rfl⟩
  obtain ⟨c, m, before, hitems, hwithin⟩ := Cursor.exists_after h hts hstart
  obtain ⟨gap, body, more, htext, -, hfirst, hlast, hreads⟩ := Cursor.exists_body hitems hus
  have hsource : source.toList = (before ++ gap) ++ (body ++ more) := by
    rw [hwithin.text_eq, htext, List.append_assoc]
  have hslice : s.textIn source = String.ofList body := by
    obtain ⟨⟨t', ht', hs⟩, u, hu, hs'⟩ := hs
    obtain rfl : t = t' := Option.some.inj ht'
    rw [Span.textIn, hs, hs', hfirst, hlast u hu, hwithin.position_eq, ← Position.past_append,
      ← Position.past_append, (Position.past_isBehind _).offset_eq,
      (Position.past_isBehind _).offset_eq, String.utf8Len_append (before ++ gap),
      ← String.ofList_toList (s := source), hsource, ← List.append_assoc]
    exact String.extract_of_valid (before ++ gap) body more
  obtain ⟨ws, hws, hwords⟩ := hreads.items (body.length + 1) Position.start
    (Nat.lt_succ_of_le hreads.length_le)
  obtain ⟨vs, last, hvs, hlast'⟩ : ∃ vs last, ws = vs ++ [last] ∧ last.word = .endOfFile ∧
      vs.map Token.word = (t :: us).map Token.word := by
    obtain ⟨vs, ls, rfl, hvs, hls⟩ := List.map_eq_append_iff.mp hwords
    obtain ⟨last, rfl, hlast'⟩ := List.map_eq_singleton_iff.mp hls
    exact ⟨vs, last, rfl, hlast', hvs⟩
  subst hvs
  refine ⟨vs, last, ?_, congrArg Word.kind hlast'.1, hlast'.2⟩
  apply tokenize_of_scan
  rw [hslice, scan, Cursor.ofText, String.toList_ofList, String.length_ofList]
  exact hws

end LoopNest
