import LoopNest.Proofs.Token.Ending
import Mathlib.Data.String.Basic
import Mathlib.Data.List.Induction
import Mathlib.Data.Nat.Find
import Mathlib.Logic.Function.Iterate

/-!
# What the items of a source cover

The next item is asked for again and again, whether the last one was a token or a fault. The items
then cover the source text but for blanks and whole comments, and each says exactly where it lies.

* `Text.IsComment`, `Text.IsGap`: the text that is in no item; `Text.InComment`: a place in it.
* `Passed`: what `skipGap` does to a text, one rule for each piece of a gap.
* `Cursor.Cut`: what `Cursor.next` does to a text.
* `Cursor.after`: the cursor behind some items; `Cursor.Within`: what they keep.
* `Accounted`: why a character is in its place; `Covers`: how the items lie in a source text.
* `scan_covers`: the items of a source cover it, and the end of the file comes in time and stays.
-/

namespace LoopNest

/-! ## Positions as counts -/

/-- The position is the one behind the text `before`, which starts the source. -/
structure Position.IsBehind (p : Position) (before : List Char) : Prop where
  line_eq : p.line = 1 + before.count '\n'
  column_eq : p.column = 1 + (before.reverse.takeWhile (· != '\n')).length
  offset_eq : p.offset = String.utf8Len before

namespace Position

theorem past_concat (p : Position) (cs : List Char) (c : Char) :
    p.past (cs ++ [c]) = (p.past cs).next c := by
  rw [past_append, past_cons, past_nil]

theorem next_offset (p : Position) (c : Char) : (p.next c).offset = p.offset + c.utf8Size := by
  unfold next
  split <;> rfl

/-- The lexer counts lines, columns and bytes as they are. -/
theorem past_isBehind (before : List Char) : (start.past before).IsBehind before := by
  -- from the right: the last character decides about line and column
  induction before using List.reverseRecOn with
  | nil => exact ⟨rfl, rfl, rfl⟩
  | append_singleton before c ih =>
    have hoffset : ((start.past before).next c).offset = String.utf8Len (before ++ [c]) := by
      rw [next_offset, ih.offset_eq, String.utf8Len_append, String.utf8Len_cons, String.utf8Len_nil,
        Nat.zero_add]
    rw [past_concat]
    refine ⟨?_, ?_, hoffset⟩
    · have hline := ih.line_eq
      rw [List.count_append, List.count_singleton]
      unfold next
      by_cases hc : c = '\n'
      · rw [if_pos hc]
        subst hc
        simp [hline, Nat.add_assoc]
      · rw [if_neg hc]
        simp [hline, hc]
    · have hcolumn := ih.column_eq
      rw [List.reverse_append, List.reverse_singleton, List.singleton_append, List.takeWhile_cons]
      unfold next
      by_cases hc : c = '\n'
      · rw [if_pos hc]
        simp [hc]
      · rw [if_neg hc]
        simp only [bne_iff_ne, ne_eq, hc, not_false_eq_true, if_true, List.length_cons]
        omega

end Position

/-! ## Gaps -/

namespace Text

/-- A whole comment in front of the text `behind`. A line comment reaches up to its newline or up
to the end of the text, a block comment up to the first mark that closes it. -/
inductive IsComment : List Char → List Char → Prop
  | line {body behind : List Char} (hbody : '\n' ∉ body)
      (hbehind : ∀ c ∈ behind.head?, c = '\n') : IsComment ('/' :: '/' :: body) behind
  | block {body behind : List Char} (hbody : ¬ ['*', '/'] <:+: body ++ ['*']) :
      IsComment ('/' :: '*' :: (body ++ ['*', '/'])) behind

/-- A text in front of `behind` that is made of blanks and whole comments. -/
inductive IsGap (behind : List Char) : List Char → Prop
  | nil : IsGap behind []
  | blank {c : Char} {gap : List Char} (hc : isBlank c = true) (hgap : IsGap behind gap) :
      IsGap behind (c :: gap)
  | comment {body gap : List Char} (hbody : IsComment body (gap ++ behind))
      (hgap : IsGap behind gap) : IsGap behind (body ++ gap)

/-- Character number `n` of the text belongs to a whole comment. Between the text `front` and the
comment there is a gap. -/
def InComment (text front : List Char) (n : Nat) : Prop :=
  ∃ gap body tail, text = front ++ (gap ++ (body ++ tail)) ∧ IsGap (body ++ tail) gap ∧
    IsComment body tail ∧ (front ++ gap).length ≤ n ∧ n < (front ++ gap ++ body).length

namespace InComment

variable {text : List Char} {n : Nat}

theorem blank {c : Char} (hc : isBlank c = true) (h : InComment text [] n) :
    InComment (c :: text) [] (n + 1) := by
  obtain ⟨gap, body, tail, rfl, hgap, hbody, hle, hlt⟩ := h
  exact ⟨c :: gap, body, tail, rfl, .blank hc hgap, hbody, Nat.succ_le_succ hle,
    Nat.succ_lt_succ hlt⟩

theorem comment {body : List Char} (hcomment : IsComment body text) (h : InComment text [] n) :
    InComment (body ++ text) [] (body.length + n) := by
  obtain ⟨gap, body', tail, rfl, hgap, hbody, hle, hlt⟩ := h
  refine ⟨body ++ gap, body', tail, ?_, .comment hcomment hgap, hbody, ?_, ?_⟩
  · simp only [List.nil_append, List.append_assoc]
  · simp only [List.nil_append, List.length_append] at hle ⊢
    omega
  · simp only [List.nil_append, List.length_append] at hlt ⊢
    omega

theorem behind (front : List Char) (h : InComment text [] n) :
    InComment (front ++ text) front (front.length + n) := by
  obtain ⟨gap, body, tail, rfl, hgap, hbody, hle, hlt⟩ := h
  refine ⟨gap, body, tail, rfl, hgap, hbody, ?_, ?_⟩
  · simp only [List.nil_append, List.length_append] at hle ⊢
    omega
  · simp only [List.nil_append, List.length_append] at hlt ⊢
    omega

end InComment

/-- Each character of a gap is a blank or belongs to a whole comment. -/
theorem IsGap.blank_or_comment {behind gap : List Char} (h : IsGap behind gap) :
    ∀ {before : List Char} {c : Char} {after : List Char}, gap = before ++ c :: after →
      isBlank c = true ∨ InComment (gap ++ behind) [] before.length := by
  induction h with
  | nil =>
    intro before c after heq
    exact absurd heq.symm (List.append_ne_nil_of_right_ne_nil _ (List.cons_ne_nil _ _))
  | @blank d gap hd hgap ih =>
    intro before c after heq
    cases before with
    | nil =>
      obtain ⟨rfl, -⟩ := List.cons.inj heq
      exact .inl hd
    | cons e before =>
      obtain ⟨rfl, hgap⟩ := List.cons.inj heq
      exact (ih hgap).imp_right (.blank hd)
  | @comment body gap hbody hgap ih =>
    intro before c after heq
    by_cases hin : before.length < body.length
    · exact .inr ⟨[], body, gap ++ behind, List.append_assoc _ _ _, .nil, hbody, Nat.zero_le _, hin⟩
    · have hprefix : body <+: before := by
        have hbefore : before <+: body ++ gap := by
          rw [heq]
          exact List.prefix_append _ _
        exact List.prefix_of_prefix_length_le (List.prefix_append _ _) hbefore (by omega)
      obtain ⟨before, rfl⟩ := hprefix
      rw [List.append_assoc] at heq
      refine (ih (List.append_cancel_left heq)).imp_right fun hc => ?_
      rw [List.append_assoc, List.length_append]
      exact hc.comment hbody

end Text

open Text (IsComment IsGap InComment)

/-! ## Passing over a gap -/

/-- How a text is passed over from a place between two items: up to the end of a gap, or up to the
end of the text where a comment stays open. -/
inductive Passed (p : Position) : List Char → Except Fault Cursor → Prop
  | behind {gap rest : List Char} (hgap : IsGap rest gap) :
      Passed p (gap ++ rest) (.ok ⟨p.past gap, rest⟩)
  | open {gap body : List Char} (hgap : IsGap ('/' :: '*' :: body) gap)
      (hbody : ¬ ['*', '/'] <:+: body) :
      Passed p (gap ++ '/' :: '*' :: body)
        (.error ⟨.openComment, ⟨p.past gap, p.past (gap ++ '/' :: '*' :: body)⟩⟩)

namespace Passed

variable {p : Position} {cs : List Char} {result : Except Fault Cursor}

theorem stay (p : Position) (cs : List Char) : Passed p cs (.ok ⟨p, cs⟩) :=
  have hgap : IsGap cs [] := .nil
  .behind hgap

theorem opened (p : Position) {body : List Char} (hbody : ¬ ['*', '/'] <:+: body) :
    Passed p ('/' :: '*' :: body)
      (.error ⟨.openComment, ⟨p, p.past ('/' :: '*' :: body)⟩⟩) :=
  have hgap : IsGap ('/' :: '*' :: body) [] := .nil
  .open hgap hbody

theorem blank {c : Char} (hc : Text.isBlank c = true) (h : Passed (p.next c) cs result) :
    Passed p (c :: cs) result := by
  cases h with
  | behind hgap => exact .behind (.blank hc hgap)
  | «open» hgap hbody => exact .open (.blank hc hgap) hbody

theorem comment {body : List Char} (hcomment : IsComment body cs)
    (h : Passed (p.past body) cs result) : Passed p (body ++ cs) result := by
  cases h with
  | behind hgap =>
    rw [← List.append_assoc, ← Position.past_append]
    exact .behind (.comment hcomment hgap)
  | «open» hgap hbody =>
    rw [← List.append_assoc, ← Position.past_append, ← Position.past_append, ← List.append_assoc]
    exact .open (.comment hcomment hgap) hbody

end Passed

/-- A line comment is passed over up to its newline. -/
theorem skipGap_lineComment (p : Position) {body cs : List Char} (hbody : '\n' ∉ body)
    (hcs : ∀ c ∈ cs.head?, c = '\n') :
    skipGap .lineComment p (body ++ cs) = skipGap .blank (p.past body) cs := by
  induction body generalizing p with
  | nil =>
    cases cs with
    | nil => simp [skipGap]
    | cons c cs =>
      obtain rfl : c = '\n' := hcs c rfl
      have hnewline : Text.isBlank '\n' = true := rfl
      simp [skipGap, hnewline]
  | cons c body ih =>
    obtain ⟨hc, hbody⟩ := not_or.mp fun h => hbody (List.mem_cons.mpr h)
    rw [List.cons_append, skipGap, if_neg (Ne.symm hc), Position.past_cons]
    exact ih (p.next c) hbody

/-- A block comment is passed over up to the first mark that closes it. -/
theorem skipGap_blockComment (start p : Position) {body : List Char} (cs : List Char)
    (hbody : ¬ ['*', '/'] <:+: body ++ ['*']) :
    skipGap (.blockComment start) p (body ++ '*' :: '/' :: cs) =
      skipGap .blank (p.past (body ++ ['*', '/'])) cs := by
  induction body generalizing p with
  | nil => rw [List.nil_append, List.nil_append, skipGap]
  | cons c body ih =>
    have htail : ¬ ['*', '/'] <:+: body ++ ['*'] := fun h =>
      hbody (h.trans (List.suffix_cons c _).isInfix)
    have hopen : ∀ ds, c :: (body ++ '*' :: '/' :: cs) ≠ '*' :: '/' :: ds := by
      intro ds heq
      obtain ⟨rfl, hds⟩ := List.cons.inj heq
      cases body with
      | nil => cases hds
      | cons d body =>
        obtain ⟨rfl, -⟩ := List.cons.inj hds
        exact hbody (List.prefix_append _ _).isInfix
    rw [List.cons_append, skipGap, ih (p.next c) htail, List.cons_append, Position.past_cons]
    exact fun ds hc heq => hopen ds (by rw [hc, heq])

/-- A block comment that nothing closes takes the text up to its end. -/
theorem skipGap_openComment (start p : Position) {body : List Char}
    (hbody : ¬ ['*', '/'] <:+: body) :
    skipGap (.blockComment start) p body = .error ⟨.openComment, ⟨start, p.past body⟩⟩ := by
  induction body generalizing p with
  | nil => rw [skipGap, Position.past_nil]
  | cons c body ih =>
    have htail : ¬ ['*', '/'] <:+: body := fun h =>
      hbody (h.trans (List.suffix_cons c _).isInfix)
    rw [skipGap, ih (p.next c) htail, Position.past_cons]
    rintro ds rfl rfl
    exact hbody (List.prefix_append ['*', '/'] ds).isInfix

/-- A text has a first newline, or none up to its end. -/
theorem exists_lineEnd (cs : List Char) :
    ∃ body rest, cs = body ++ rest ∧ '\n' ∉ body ∧ ∀ c ∈ rest.head?, c = '\n' := by
  refine ⟨cs.takeWhile (· != '\n'), cs.dropWhile (· != '\n'),
    List.takeWhile_append_dropWhile.symm, fun h => ?_, fun c hc => ?_⟩
  · simpa using List.all_eq_true.mp List.all_takeWhile _ h
  · have hstop := List.head?_dropWhile_not (· != '\n') cs
    rw [Option.mem_def.mp hc] at hstop
    simpa using hstop

/-- A text has no mark that closes a comment, or a first one. -/
theorem exists_closing (cs : List Char) : ¬ ['*', '/'] <:+: cs ∨
    ∃ body rest, cs = body ++ '*' :: '/' :: rest ∧ ¬ ['*', '/'] <:+: body ++ ['*'] := by
  induction cs with
  | nil => exact .inl (by decide)
  | cons c cs ih =>
    by_cases hprefix : ['*', '/'] <+: c :: cs
    · obtain ⟨rest, heq⟩ := hprefix
      exact .inr ⟨[], rest, heq.symm, by decide⟩
    · rcases ih with hopen | ⟨body, rest, rfl, hbody⟩
      · exact .inl fun h => (List.infix_cons_iff.mp h).elim hprefix hopen
      · refine .inr ⟨c :: body, rest, rfl, fun h => ?_⟩
        rcases List.infix_cons_iff.mp h with h | h
        · exact hprefix (h.trans ⟨'/' :: rest, by simp⟩)
        · exact hbody h

/-- From between two items, whole comments and blanks are passed over and nothing else. -/
theorem skipGap_passed (p : Position) (cs : List Char) : Passed p cs (skipGap .blank p cs) := by
  -- a comment is passed over in one step, so the induction is on the length of the text
  induction hn : cs.length using Nat.strongRecOn generalizing p cs with
  | ind n ih =>
    subst hn
    unfold skipGap
    split
    · next h => cases h
    · exact .stay _ []
    · next cs _ =>
      obtain ⟨body, rest, rfl, hbody, hrest⟩ := exists_lineEnd cs
      rw [skipGap_lineComment _ hbody hrest, ← Position.past_append]
      have hcomment : IsComment ('/' :: '/' :: body) rest := .line hbody hrest
      refine Passed.comment hcomment (ih _ ?_ _ _ rfl)
      simp only [List.length_cons, List.length_append]
      omega
    · next cs _ =>
      rcases exists_closing cs with hopen | ⟨body, rest, rfl, hbody⟩
      · rw [skipGap_openComment _ _ hopen]
        exact .opened _ hopen
      · rw [skipGap_blockComment _ _ _ hbody, ← Position.past_append]
        have htext : '/' :: '*' :: (body ++ '*' :: '/' :: rest) =
            '/' :: '*' :: (body ++ ['*', '/']) ++ rest := by simp
        rw [htext]
        refine Passed.comment (.block hbody) (ih _ ?_ _ _ rfl)
        simp only [List.length_cons, List.length_append]
        omega
    · next c cs _ _ _ =>
      split
      · next hblank => exact .blank hblank (ih _ (Nat.lt_succ_self _) _ _ rfl)
      · exact .stay _ _
    all_goals next h => cases h

/-! ## One item -/

/-- A word, a number, a symbol or a fault is not the end of the file. -/
theorem scanLexeme_verdict_ne (c : Char) (cs : List Char) :
    (scanLexeme c cs).verdict ≠ .ok .endOfFile := by
  intro h
  unfold scanLexeme at h
  cases hsymbol : scanSymbol? c cs with
  | some l =>
    simp only [hsymbol] at h
    unfold scanSymbol? at hsymbol
    split at hsymbol
    · cases hsymbol
      cases h
    · obtain ⟨s, _, rfl⟩ := Option.map_eq_some_iff.mp hsymbol
      cases h
  | none =>
    simp only [hsymbol] at h
    split at h
    · unfold scanNumber scanExponent floatLexeme at h
      grind
    · split at h
      · unfold scanWord Token.Kind.ofWord at h
        grind
      · cases h

/-- From the cursor `c` the characters `gap` are passed over, then the item `i` is read from the
characters `chars`, and `c'` stands behind it. -/
structure Cursor.Cut (c : Cursor) (gap chars : List Char) (i : Item) (c' : Cursor) : Prop where
  text_eq : c.rest = gap ++ (chars ++ c'.rest)
  isGap : IsGap (chars ++ c'.rest) gap
  start_eq : i.span.start = c.position.past gap
  stop_eq : i.span.stop = i.span.start.past chars
  position_eq : c'.position = i.span.stop
  lexeme_eq : ∀ t, i = .token t → t.lexeme = String.ofList chars
  of_isEnd : i.isEnd = true → chars = [] ∧ c'.rest = []
  chars_ne : i.isEnd = false → chars ≠ []

theorem Lexeme.item_span (l : Lexeme) (p : Position) : (l.item p).span = ⟨p, p.past l.chars⟩ := by
  unfold item
  split <;> rfl

theorem Lexeme.item_isEnd {l : Lexeme} (h : l.verdict ≠ .ok .endOfFile) (p : Position) :
    (l.item p).isEnd = false := by
  unfold item
  split
  · next kind hkind =>
    refine beq_eq_false_iff_ne.mpr fun hend => h ?_
    rw [hkind]
    exact congrArg _ hend
  · rfl

theorem Lexeme.lexeme_of_item {l : Lexeme} {p : Position} {t : Token} (h : l.item p = .token t) :
    t.lexeme = String.ofList l.chars := by
  unfold item at h
  split at h
  · obtain rfl := Item.token.inj h
    rfl
  · cases h

/-- Behind a gap a word, a number, a symbol or a fault is cut off. -/
theorem Cursor.cut_scanLexeme {c : Cursor} {gap cs : List Char} {d : Char}
    (htext : c.rest = gap ++ d :: cs) (hgap : IsGap (d :: cs) gap) :
    c.Cut gap (scanLexeme d cs).chars ((scanLexeme d cs).item (c.position.past gap))
      ⟨(c.position.past gap).past (scanLexeme d cs).chars, (scanLexeme d cs).rest⟩ := by
  have happend : (scanLexeme d cs).chars ++ (scanLexeme d cs).rest = d :: cs :=
    scanLexeme_append d cs
  have hspan := (scanLexeme d cs).item_span (c.position.past gap)
  have hend := Lexeme.item_isEnd (scanLexeme_verdict_ne d cs) (c.position.past gap)
  constructor
  · rw [htext, happend]
  · rwa [happend]
  · exact congrArg Span.start hspan
  · rw [hspan]
  · rw [hspan]
  · exact fun t ht => Lexeme.lexeme_of_item ht
  · intro h
    rw [hend] at h
    cases h
  · exact fun _ => scanLexeme_chars_ne d cs

/-- Each call for an item cuts the text, also one that gives a fault. -/
theorem Cursor.next_cut (c : Cursor) : ∃ gap chars, c.Cut gap chars c.next.1 c.next.2 := by
  have h := skipGap_passed c.position c.rest
  unfold next
  generalize hresult : skipGap .blank c.position c.rest = result at h
  generalize htext : c.rest = text at h
  cases h with
  | @«open» gap body hgap hbody =>
    refine ⟨gap, '/' :: '*' :: body, ?_⟩
    constructor
    · rw [htext, List.append_nil]
    · rwa [List.append_nil]
    · rfl
    · exact Position.past_append _ _ _
    · rfl
    · exact fun t ht => by cases ht
    · exact fun hend => by cases hend
    · exact fun _ => List.cons_ne_nil _ _
  | @behind gap rest hgap =>
    cases rest with
    | nil =>
      refine ⟨gap, [], ?_⟩
      constructor
      · rw [htext]
        rfl
      · exact hgap
      · rfl
      · rfl
      · rfl
      · rintro t ⟨⟩
        rfl
      · exact fun _ => ⟨rfl, rfl⟩
      · exact fun hend => by cases hend
    | cons d cs => exact ⟨gap, _, cut_scanLexeme htext hgap⟩

/-! ## Many items -/

namespace Cursor

/-- The cursor behind the first `n` items. -/
def after (c : Cursor) (n : Nat) : Cursor := (fun c => c.next.2)^[n] c

@[simp] theorem after_zero (c : Cursor) : c.after 0 = c := rfl

theorem after_succ (c : Cursor) (n : Nat) : c.after (n + 1) = (c.after n).next.2 :=
  Function.iterate_succ_apply' _ n c

theorem after_next (c : Cursor) (n : Nat) : c.next.2.after n = c.after (n + 1) :=
  (Function.iterate_succ_apply _ n c).symm

/-- What call number `n` for an item gives. The first one has the number zero. -/
def call (c : Cursor) (n : Nat) : Item := (c.after n).next.1

/-- What the first `n` calls for an item give. -/
def calls (c : Cursor) (n : Nat) : List Item := (List.range n).map c.call

theorem mem_calls {c : Cursor} {n : Nat} {i : Item} :
    i ∈ c.calls n ↔ ∃ m < n, c.call m = i := by
  simp only [calls, List.mem_map, List.mem_range]

theorem calls_subset (c : Cursor) {m n : Nat} (h : m ≤ n) : c.calls m ⊆ c.calls n := by
  intro i hi
  obtain ⟨k, hk, rfl⟩ := mem_calls.mp hi
  exact mem_calls.mpr ⟨k, Nat.lt_of_lt_of_le hk h, rfl⟩

/-- The end of the file is found again and again. -/
theorem next_next_of_isEnd {c : Cursor} (h : c.next.1.isEnd = true) : c.next.2.next = c.next := by
  unfold next at h ⊢
  split at h
  · cases h
  · rw [skipGap]
    exact fun _ hgap => by cases hgap
  · next p d cs hgap =>
    rw [Lexeme.item_isEnd (scanLexeme_verdict_ne d cs)] at h
    cases h

theorem call_of_isEnd {c : Cursor} {n : Nat} (h : (c.call n).isEnd = true) {m : Nat} (hm : n ≤ m) :
    c.call m = c.call n := by
  have hstay : (c.after m).next = (c.after n).next := by
    induction hm with
    | refl => rfl
    | step _ ih =>
      rw [after_succ, next_next_of_isEnd, ih]
      rw [ih]
      exact h
  exact congrArg Prod.fst hstay

theorem after_rest_le {c : Cursor} {n : Nat} (h : ∀ m < n, (c.call m).isEnd = false) :
    (c.after n).rest.length + n ≤ c.rest.length := by
  induction n with
  | zero => exact Nat.le_refl _
  | succ n ih =>
    have hle := ih fun m hm => h m (Nat.lt_succ_of_lt hm)
    have hlt := (c.after n).next_rest_lt (h n (Nat.lt_succ_self n))
    rw [after_succ]
    omega

/-- The end of the file comes after at most as many items as there are characters. -/
theorem exists_last (c : Cursor) : ∃ last ≤ c.rest.length, (c.call last).isEnd = true ∧
    ∀ n < last, (c.call n).isEnd = false := by
  have hend : ∃ n, (c.call n).isEnd = true := by
    by_contra hnone
    have hle := after_rest_le (c := c) (n := c.rest.length + 1) fun m _ =>
      Bool.eq_false_iff.mpr fun hm => hnone ⟨m, hm⟩
    omega
  have hbefore : ∀ n < Nat.find hend, (c.call n).isEnd = false := fun n hn =>
    Bool.eq_false_iff.mpr (Nat.find_min hend hn)
  have hle := after_rest_le hbefore
  exact ⟨Nat.find hend, by omega, Nat.find_spec hend, hbefore⟩

theorem items_succ (n : Nat) (c : Cursor) : c.items (n + 1) =
    if c.next.1.isEnd then [c.next.1] else c.next.1 :: c.next.2.items n := rfl

/-- The items of a text are what the calls give, up to the first end of the file. -/
theorem items_eq_calls {c : Cursor} {last n : Nat} (hlast : (c.call last).isEnd = true)
    (hbefore : ∀ m < last, (c.call m).isEnd = false) (hn : last < n) :
    c.items n = c.calls (last + 1) := by
  induction last generalizing c n with
  | zero =>
    obtain ⟨n, rfl⟩ := Nat.exists_eq_add_one.mpr hn
    have hend : c.next.1.isEnd = true := hlast
    rw [items_succ, if_pos hend]
    rfl
  | succ last ih =>
    obtain ⟨n, rfl⟩ := Nat.exists_eq_add_one.mpr (Nat.zero_lt_of_lt hn)
    have hgo : c.next.1.isEnd = false := hbefore 0 (Nat.zero_lt_succ last)
    have hshift : ∀ m, c.next.2.call m = c.call (m + 1) := fun m =>
      congrArg (fun c => c.next.1) (c.after_next m)
    have htail : c.next.2.items n = c.next.2.calls (last + 1) := by
      apply ih
      · rwa [hshift]
      · intro m hm
        rw [hshift]
        exact hbefore (m + 1) (Nat.succ_lt_succ hm)
      · exact Nat.lt_of_succ_lt_succ hn
    rw [items_succ, if_neg (Bool.eq_false_iff.mp hgo), htail, calls, calls,
      List.range_succ_eq_map (n := last + 1), List.map_cons, List.map_map]
    exact congrArg (c.call 0 :: ·) (List.map_congr_left fun m _ => hshift m)

/-! ## Places in the source -/

/-- The cursor stands behind `before`, which starts the source. -/
structure Within (source : String) (before : List Char) (c : Cursor) : Prop where
  text_eq : source.toList = before ++ c.rest
  position_eq : c.position = Position.start.past before

variable {source : String} {before gap chars : List Char} {c c' : Cursor} {i : Item}

theorem Within.cut (h : c.Within source before) (hcut : c.Cut gap chars i c') :
    c'.Within source (before ++ gap ++ chars) := by
  constructor
  · rw [h.text_eq, hcut.text_eq, List.append_assoc, List.append_assoc]
  · rw [hcut.position_eq, hcut.stop_eq, hcut.start_eq, h.position_eq, Position.past_append,
      Position.past_append]

/-- Nothing stands in front of the first cursor. -/
theorem Within.eq_nil (h : (ofText source).Within source before) : before = [] := by
  have hlength : source.toList.length = before.length + source.toList.length := by
    rw [← List.length_append]
    exact congrArg List.length h.text_eq
  exact List.eq_nil_of_length_eq_zero (by omega)

theorem exists_within (source : String) (n : Nat) :
    ∃ before, ((ofText source).after n).Within source before := by
  induction n with
  | zero => exact ⟨[], rfl, rfl⟩
  | succ n ih =>
    obtain ⟨before, h⟩ := ih
    obtain ⟨gap, chars, hcut⟩ := ((ofText source).after n).next_cut
    rw [after_succ]
    exact ⟨_, h.cut hcut⟩

/-- The place of an item in the source. -/
theorem Within.span_eq (h : c.Within source before) (hcut : c.Cut gap chars i c') :
    i.span = ⟨Position.start.past (before ++ gap), Position.start.past (before ++ gap ++ chars)⟩ ∧
      source.toList = before ++ gap ++ chars ++ c'.rest := by
  have hstart : i.span.start = Position.start.past (before ++ gap) := by
    rw [hcut.start_eq, h.position_eq, Position.past_append]
  have hstop : i.span.stop = Position.start.past (before ++ gap ++ chars) := by
    rw [hcut.stop_eq, hstart, ← Position.past_append]
  refine ⟨?_, (h.cut hcut).text_eq⟩
  rw [← hstart, ← hstop]

end Cursor

/-! ## The cover -/

/-- The text `front` is empty, or one of the items stops behind it. -/
def IsFront (items : List Item) (front : List Char) : Prop :=
  front = [] ∨ ∃ i ∈ items, i.span.stop.offset = String.utf8Len front

theorem IsFront.mono {items items' : List Item} {front : List Char} (h : IsFront items front)
    (hsub : items ⊆ items') : IsFront items' front :=
  h.imp_right fun ⟨i, hi, hstop⟩ => ⟨i, hsub hi, hstop⟩

/-- The character `d` behind the text `before` is in an item, or it is a blank, or it belongs to a
whole comment that starts between two items. -/
inductive Accounted (text : List Char) (items : List Item) (before : List Char) (d : Char) : Prop
  | item {i : Item} (hi : i ∈ items) (hstart : i.span.start.offset ≤ String.utf8Len before)
      (hstop : String.utf8Len before < i.span.stop.offset)
  | blank (hd : Text.isBlank d = true)
  | comment {front : List Char} (hfront : IsFront items front)
      (hin : InComment text front before.length)

theorem Accounted.mono {text : List Char} {items items' : List Item} {before : List Char}
    {d : Char} (h : Accounted text items before d) (hsub : items ⊆ items') :
    Accounted text items' before d := by
  cases h with
  | item hi hstart hstop => exact .item (hsub hi) hstart hstop
  | blank hd => exact .blank hd
  | comment hfront hin => exact .comment (hfront.mono hsub) hin

/-- A character behind `front` that the text `front ++ part` reaches belongs to `part`. -/
theorem exists_part {front part rest before behind : List Char} {d : Char}
    (heq : front ++ part ++ rest = before ++ d :: behind) (hfront : front.length ≤ before.length)
    (hpart : before.length < (front ++ part).length) :
    ∃ inner after, before = front ++ inner ∧ part = inner ++ d :: after := by
  obtain ⟨inner, rfl⟩ : front <+: before :=
    List.prefix_of_prefix_length_le ⟨_, (List.append_assoc _ _ _).symm.trans heq⟩
      (List.prefix_append _ _) hfront
  rw [List.append_assoc, List.append_assoc] at heq
  obtain ⟨after, rfl⟩ : inner ++ [d] <+: part := by
    have hinner : inner ++ [d] <+: part ++ rest := by
      rw [List.append_cancel_left heq]
      exact ⟨behind, List.append_assoc _ _ _⟩
    apply List.prefix_of_prefix_length_le hinner
    · exact List.prefix_append _ _
    · rw [List.length_append, List.length_append] at hpart
      rw [List.length_append, List.length_singleton]
      omega
  exact ⟨inner, after, rfl, List.append_assoc _ _ _⟩

namespace Cursor

theorem next_before (c : Cursor) : c.position.Before c.next.1.span.start ∧
    c.next.1.span.start.Before c.next.1.span.stop ∧
    c.next.2.position = c.next.1.span.stop := by
  obtain ⟨gap, chars, hcut⟩ := c.next_cut
  refine ⟨?_, ?_, hcut.position_eq⟩
  · rw [hcut.start_eq]
    exact .past _ _
  · rw [hcut.stop_eq]
    exact .past _ _

theorem after_before (c : Cursor) {m n : Nat} (h : m ≤ n) :
    (c.after m).position.Before (c.after n).position := by
  induction h with
  | refl => exact .refl _
  | @step n _ ih =>
    obtain ⟨hstart, hstop, hposition⟩ := (c.after n).next_before
    rw [after_succ, hposition]
    exact ih.trans (hstart.trans hstop)

/-- An item stops in front of what later calls give. -/
theorem call_before (c : Cursor) {m n : Nat} (h : m < n) :
    (c.call m).span.stop.Before (c.call n).span.start := by
  obtain ⟨-, -, hposition⟩ := (c.after m).next_before
  have hbetween := c.after_before (Nat.succ_le_of_lt h)
  rw [after_succ, hposition] at hbetween
  exact hbetween.trans (c.after n).next_before.1

/-- The cursor stands at the start of the source or behind an item. -/
theorem isFront_of_within {source : String} {n : Nat} {front : List Char}
    (h : ((ofText source).after n).Within source front) :
    IsFront ((ofText source).calls n) front := by
  cases n with
  | zero => exact .inl h.eq_nil
  | succ n =>
    obtain ⟨-, -, hposition⟩ := ((ofText source).after n).next_before
    have hstop : Position.start.past front = ((ofText source).call n).span.stop := by
      rw [← h.position_eq, after_succ]
      exact hposition
    refine .inr ⟨_, mem_calls.mpr ⟨n, Nat.lt_succ_self n, rfl⟩, ?_⟩
    rw [← hstop, (Position.past_isBehind front).offset_eq]

/-- The calls account for each character in front of the cursor. -/
theorem call_covers {source : String} {before : List Char} {d : Char} {behind : List Char}
    (htext : source.toList = before ++ d :: behind) (n : Nat) {passed : List Char}
    (hpassed : ((ofText source).after n).Within source passed)
    (hlt : before.length < passed.length) :
    Accounted source.toList ((ofText source).calls n) before d := by
  induction n generalizing passed with
  | zero =>
    rw [hpassed.eq_nil] at hlt
    exact absurd hlt (Nat.not_lt_zero _)
  | succ n ih =>
    obtain ⟨front, hfront⟩ := exists_within source n
    obtain ⟨gap, chars, hcut⟩ := ((ofText source).after n).next_cut
    obtain ⟨hspan, hsource⟩ := hfront.span_eq hcut
    have hbehind := hfront.cut hcut
    rw [after_succ] at hpassed
    have hlength : passed.length = (front ++ gap ++ chars).length := by
      have hpassed := congrArg List.length hpassed.text_eq
      have hbehind := congrArg List.length hbehind.text_eq
      rw [List.length_append] at hpassed hbehind
      omega
    -- the character stands in front of item `n`, in the gap before it or in the item
    by_cases hold : before.length < front.length
    · exact (ih hfront hold).mono (calls_subset _ (Nat.le_succ n))
    have hfrontle : front.length ≤ before.length := Nat.le_of_not_lt hold
    by_cases hgap : before.length < (front ++ gap).length
    · have heq : front ++ gap ++ (chars ++ ((ofText source).after n).next.2.rest) =
          before ++ d :: behind := by
        rw [← htext, hsource, List.append_assoc (front ++ gap)]
      obtain ⟨inner, after, rfl, hinner⟩ := exists_part heq hfrontle hgap
      rcases hcut.isGap.blank_or_comment hinner with hd | hcomment
      · exact .blank hd
      · have hin := hcomment.behind front
        rw [← List.append_assoc front, ← List.append_assoc, ← hsource, ← List.length_append] at hin
        exact .comment ((isFront_of_within hfront).mono (calls_subset _ (Nat.le_succ n))) hin
    · obtain ⟨inner, after, rfl, rfl⟩ := exists_part (hsource.symm.trans htext)
        (Nat.le_of_not_lt hgap) (hlength ▸ hlt)
      have hspan : ((ofText source).call n).span = _ := hspan
      refine .item (mem_calls.mpr ⟨n, Nat.lt_succ_self n, rfl⟩) ?_ ?_
      · rw [hspan, ← (Position.past_isBehind _).offset_eq,
          Position.past_append _ (front ++ gap) inner]
        exact (Position.Before.past _ _).offset_le
      · rw [hspan, ← (Position.past_isBehind _).offset_eq, ← List.append_assoc,
          Position.past_append _ (front ++ gap ++ inner) (d :: after)]
        exact Position.offset_lt_past _ (List.cons_ne_nil _ _)

end Cursor

/-- How the items of a source lie in it. -/
structure Covers (source : String) (items : List Item) : Prop where
  /-- They are in order and share no text. -/
  ordered : items.Pairwise fun i j => i.span.stop.offset ≤ j.span.start.offset
  /-- Each of them but the end of the file has some text. -/
  nonempty : ∀ i ∈ items, i.isEnd = false → i.span.start.offset < i.span.stop.offset
  /-- The end of the file has no text and stands at the end of the source. -/
  atEnd : ∀ i ∈ items, i.isEnd = true →
    i.span.start.offset = source.utf8ByteSize ∧ i.span.stop = i.span.start
  /-- The text of a token is the part of the source in its span. -/
  slice : ∀ t, .token t ∈ items →
    t.lexeme = String.Pos.Raw.extract source ⟨t.span.start.offset⟩ ⟨t.span.stop.offset⟩
  /-- A character is in the span of an item, or it is a blank or part of a whole comment. -/
  covered : ∀ before d behind, source.toList = before ++ d :: behind →
    Accounted source.toList items before d
  /-- The ends of a span stand between two characters, and they are counted as they are. -/
  placed : ∀ i ∈ items, ∀ p ∈ [i.span.start, i.span.stop],
    String.Pos.Raw.IsValid source ⟨p.offset⟩ ∧
      ∃ before behind, source.toList = before ++ behind ∧ p.IsBehind before

namespace Cursor

variable (source : String) (n : Nat)

/-- Item `n` of a source with the text in front of it, its own text and the text behind it. -/
theorem exists_parts : ∃ lead chars rest, source.toList = lead ++ chars ++ rest ∧
    ((ofText source).call n).span =
      ⟨Position.start.past lead, Position.start.past (lead ++ chars)⟩ ∧
    (∀ t, (ofText source).call n = .token t → t.lexeme = String.ofList chars) ∧
    (((ofText source).call n).isEnd = true → chars = [] ∧ rest = []) ∧
    (((ofText source).call n).isEnd = false → chars ≠ []) := by
  obtain ⟨before, hwithin⟩ := exists_within source n
  obtain ⟨gap, chars, hcut⟩ := ((ofText source).after n).next_cut
  obtain ⟨hspan, hsource⟩ := hwithin.span_eq hcut
  exact ⟨before ++ gap, chars, _, hsource, hspan, hcut.lexeme_eq, hcut.of_isEnd, hcut.chars_ne⟩

theorem call_nonempty (h : ((ofText source).call n).isEnd = false) :
    ((ofText source).call n).span.start.offset < ((ofText source).call n).span.stop.offset := by
  obtain ⟨lead, chars, rest, -, hspan, -, -, hne⟩ := exists_parts source n
  rw [hspan, Position.past_append]
  exact Position.offset_lt_past _ (hne h)

theorem call_atEnd (h : ((ofText source).call n).isEnd = true) :
    ((ofText source).call n).span.start.offset = source.utf8ByteSize ∧
      ((ofText source).call n).span.stop = ((ofText source).call n).span.start := by
  obtain ⟨lead, chars, rest, hsource, hspan, -, hend, -⟩ := exists_parts source n
  obtain ⟨rfl, rfl⟩ := hend h
  rw [List.append_nil, List.append_nil] at hsource
  rw [hspan, List.append_nil]
  refine ⟨?_, rfl⟩
  rw [(Position.past_isBehind lead).offset_eq, ← hsource, ← String.utf8ByteSize_ofList,
    String.ofList_toList]

theorem call_slice {t : Token} (h : (ofText source).call n = .token t) :
    t.lexeme = String.Pos.Raw.extract source ⟨t.span.start.offset⟩ ⟨t.span.stop.offset⟩ := by
  obtain ⟨lead, chars, rest, hsource, hspan, hlexeme, -, -⟩ := exists_parts source n
  have hspan : t.span = _ := (congrArg Item.span h).symm.trans hspan
  rw [hlexeme t h, hspan, (Position.past_isBehind lead).offset_eq,
    (Position.past_isBehind (lead ++ chars)).offset_eq, String.utf8Len_append,
    ← String.ofList_toList (s := source), hsource]
  exact (String.extract_of_valid lead chars rest).symm

/-- A place between two characters of the source. -/
theorem past_placed {before behind : List Char} (h : source.toList = before ++ behind) :
    String.Pos.Raw.IsValid source ⟨(Position.start.past before).offset⟩ ∧
      ∃ before' behind, source.toList = before' ++ behind ∧
        (Position.start.past before).IsBehind before' := by
  refine ⟨?_, before, behind, h, Position.past_isBehind before⟩
  refine String.Pos.Raw.isValid_iff_exists_append.mpr
    ⟨String.ofList before, String.ofList behind, ?_, ?_⟩
  · rw [← String.ofList_append, ← h, String.ofList_toList]
  · rw [(Position.past_isBehind before).offset_eq, ← String.utf8ByteSize_ofList]
    rfl

theorem call_placed {p : Position}
    (hp : p ∈ [((ofText source).call n).span.start, ((ofText source).call n).span.stop]) :
    String.Pos.Raw.IsValid source ⟨p.offset⟩ ∧
      ∃ before behind, source.toList = before ++ behind ∧ p.IsBehind before := by
  obtain ⟨lead, chars, rest, hsource, hspan, -⟩ := exists_parts source n
  rw [hspan] at hp
  rcases List.mem_cons.mp hp with rfl | hp
  · exact past_placed source (hsource.trans (List.append_assoc _ _ _))
  · rw [List.mem_singleton.mp hp]
    exact past_placed source hsource

/-- The calls up to the first end of the file cover the source. -/
theorem calls_cover {source : String} {last : Nat}
    (hlast : ((ofText source).call last).isEnd = true) :
    Covers source ((ofText source).calls (last + 1)) where
  ordered := by
    rw [calls, List.pairwise_map]
    exact List.pairwise_lt_range.imp fun h => (call_before _ h).offset_le
  nonempty := by
    intro i hi h
    obtain ⟨n, -, rfl⟩ := mem_calls.mp hi
    exact call_nonempty source n h
  atEnd := by
    intro i hi h
    obtain ⟨n, -, rfl⟩ := mem_calls.mp hi
    exact call_atEnd source n h
  slice := by
    intro t ht
    obtain ⟨n, -, hcall⟩ := mem_calls.mp ht
    exact call_slice source n hcall
  covered := by
    intro before d behind htext
    obtain ⟨passed, hpassed⟩ := exists_within source (last + 1)
    have hrest : ((ofText source).after (last + 1)).rest = [] := by
      obtain ⟨gap, chars, hcut⟩ := ((ofText source).after last).next_cut
      rw [after_succ]
      exact (hcut.of_isEnd hlast).2
    have hlt : before.length < passed.length := by
      have heq := hpassed.text_eq.symm.trans htext
      rw [hrest, List.append_nil] at heq
      rw [heq, List.length_append, List.length_cons]
      omega
    exact call_covers htext (last + 1) hpassed hlt
  placed := by
    intro i hi p hp
    obtain ⟨n, -, rfl⟩ := mem_calls.mp hi
    exact call_placed source n hp

end Cursor

open Cursor

/-- The items of a source are those that one asks for, one after the other, up to the end of the
file. -/
theorem exists_calls (source : String) : ∃ last ≤ source.length,
    scan source = (Cursor.ofText source).calls (last + 1) ∧
    ∀ n, ((Cursor.ofText source).call n).isEnd = true ↔ last ≤ n := by
  obtain ⟨last, hle, hlast, hbefore⟩ := (ofText source).exists_last
  have hlength : last ≤ source.length := Nat.le_trans hle (Nat.le_of_eq String.length_toList)
  refine ⟨last, hlength, items_eq_calls hlast hbefore (Nat.lt_succ_of_le hlength), fun n => ?_⟩
  refine ⟨fun h => ?_, fun hn => ?_⟩
  · by_contra hn
    exact Bool.eq_false_iff.mp (hbefore n (Nat.lt_of_not_le hn)) h
  · rw [call_of_isEnd hlast hn]
    exact hlast

/-- The items of a source cover it. -/
theorem covers_scan (source : String) : Covers source (scan source) := by
  obtain ⟨last, -, hscan, hend⟩ := exists_calls source
  rw [hscan]
  exact calls_cover ((hend last).mpr (Nat.le_refl last))

/-- **The items cover the source.** Asked for one after the other, going on after faults, they come
to the end of the file after at most as many calls as there are characters, and it stays. Up to
there they are `scan source`, and they cover the source but for blanks and comments, in order, each
with the text and the position that it says. -/
theorem scan_covers (source : String) : ∃ last ≤ source.length,
    scan source = (Cursor.ofText source).calls (last + 1) ∧
    (∀ n, ((Cursor.ofText source).call n).isEnd = true ↔ last ≤ n) ∧
    (∀ n, last ≤ n → (Cursor.ofText source).call n = (Cursor.ofText source).call last) ∧
    Covers source (scan source) := by
  obtain ⟨last, hle, hscan, hend⟩ := exists_calls source
  exact ⟨last, hle, hscan, hend, fun n hn => call_of_isEnd ((hend last).mpr (Nat.le_refl last)) hn,
    covers_scan source⟩

end LoopNest
