import LoopNest.Proofs.Grammar.Spans
import LoopNest.Proofs.Source.Lines

/-!
# What an excerpt underlines

An excerpt quotes the line on which a span starts, with carets below the characters of the span on
that line. Where a span goes on behind its first line, the carets go to the width of that line in
bytes, and there are too many of them if the line has characters of several bytes.

* `Token.exists_lead`: the text in front of a token, that of the token and the text behind it.
* `Span.IsText`: so it is for a span that goes from a token to a token.
* `Span.StartsAt`: the line on which a span starts, cut where the span starts.
* `Span.shown`: how many characters of the span are on that line.
* `Span.excerpt?_eq`: the excerpt of a span.
* `Program.HasSpan`, `Program.excerpts_underline`: the excerpts of all tokens and nodes.
-/

namespace LoopNest

open Token Source

/-! ## The text of tokens -/

/-- There are no blanks in a token. -/
theorem Token.IsLexeme.not_blank {k : Token.Kind} {cs : List Char} (h : IsLexeme k cs) :
    ∀ c ∈ cs, Text.isBlank c = false := by
  have hpart {c : Char} (hc : Text.isIdentifierPart c = true) : Text.isBlank c = false := by
    cases hblank : Text.isBlank c with
    | false => rfl
    | true =>
      rw [Text.isIdentifierPart_of_isBlank hblank] at hc
      cases hc
  obtain ⟨c, cs, rfl, ⟨s, -, hs, -⟩ | ⟨-, hnumber⟩ | ⟨hstart, hparts, -⟩⟩ := h.cases_first
  · rw [← hs]
    exact fun d hd => (s.chars_spec d hd).1
  · exact hnumber.not_blank
  · exact List.forall_mem_cons.mpr
      ⟨hpart (Text.isIdentifierPart_of_start hstart), fun d hd => hpart (hparts d hd)⟩

/-- The text in front of a token, that of the token and the text behind it. -/
theorem Token.exists_lead {source : String} {t : Token} (h : .token t ∈ scan source)
    (ht : t.isEnd = false) :
    ∃ lead chars rest, source.toList = lead ++ (chars ++ rest) ∧
      t.span = ⟨Position.start.past lead, Position.start.past (lead ++ chars)⟩ ∧
      chars ≠ [] ∧ ∀ c ∈ chars, Text.isBlank c = false := by
  obtain ⟨last, -, hscan, -⟩ := exists_calls source
  rw [hscan] at h
  obtain ⟨n, -, hcall⟩ := Cursor.mem_calls.mp h
  obtain ⟨lead, chars, rest, hsource, hspan, hlexeme, -, hne⟩ := Cursor.exists_parts source n
  rw [hcall] at hspan hne
  have hchars := hlexeme t hcall
  refine ⟨lead, chars, rest, by rw [hsource, List.append_assoc], hspan, hne ht, ?_⟩
  rcases Cursor.isLexeme_of_next hcall with hlex | hend
  · rw [hchars, String.toList_ofList] at hlex
    exact hlex.not_blank
  · rw [Token.isEnd, show t.kind = .endOfFile from congrArg Word.kind hend] at ht
    cases ht

/-- The text in front of a span, in it and behind it. The text in it starts and stops with no
blank. -/
structure Span.IsText (s : Span) (source : String) (before body behind : List Char) : Prop where
  text : source.toList = before ++ (body ++ behind)
  start : s.start = Position.start.past before
  stop : s.stop = Position.start.past (before ++ body)
  first : ∃ c ∈ body.head?, Text.isBlank c = false
  last : ∃ c ∈ body.getLast?, Text.isBlank c = false

/-- Of two fronts of a text, the one with more bytes has the other one as its front. -/
theorem exists_between {cs before rest before' rest' : List Char} (h : cs = before ++ rest)
    (h' : cs = before' ++ rest') (hlt : String.utf8Len before < String.utf8Len before') :
    ∃ body, before' = before ++ body ∧ rest = body ++ rest' := by
  rcases List.append_eq_append_iff.mp (h.symm.trans h') with ⟨body, rfl, hrest⟩ | ⟨body, rfl, hrest⟩
  · exact ⟨body, rfl, hrest⟩
  · rw [String.utf8Len_append] at hlt
    omega

/-- A span from a token to a token has text of the source. -/
theorem Span.Bounds.exists_text {source : String} {s : Span} {ts : List Token} (h : s.Bounds ts)
    (ho : InOrder ts) (hts : ∀ t ∈ ts, .token t ∈ scan source ∧ t.isEnd = false) :
    ∃ before body behind, s.IsText source before body behind := by
  have hlt := h.nonempty ho
  obtain ⟨⟨t, ht, hstart⟩, u, hu, hstop⟩ := h
  obtain ⟨htscan, htend⟩ := hts t (List.mem_of_mem_head? ht)
  obtain ⟨huscan, huend⟩ := hts u (List.mem_of_mem_getLast? hu)
  obtain ⟨before, chars, rest, htext, hspan, hne, hblank⟩ := exists_lead htscan htend
  obtain ⟨lead, chars', behind, htext', hspan', hne', hblank'⟩ := exists_lead huscan huend
  rw [hspan] at hstart
  rw [hspan'] at hstop
  rw [hstart, hstop, (Position.past_isBehind _).offset_eq, (Position.past_isBehind _).offset_eq] at hlt
  rw [← List.append_assoc] at htext'
  obtain ⟨body, hbody, hrest⟩ := exists_between htext htext' hlt
  have hbodyne : body ≠ [] := by
    rintro rfl
    rw [hbody, List.append_nil] at hlt
    exact Nat.lt_irrefl _ hlt
  refine ⟨before, body, behind, by rw [htext, hrest], hstart, by rw [hstop, hbody], ?_, ?_⟩
  · obtain ⟨c, cs, rfl⟩ := List.exists_cons_of_ne_nil hne
    obtain ⟨d, ds, rfl⟩ := List.exists_cons_of_ne_nil hbodyne
    obtain ⟨rfl, -⟩ := List.cons.inj hrest
    exact ⟨c, rfl, hblank c List.mem_cons_self⟩
  · have hlast : (lead ++ chars').getLast? = (before ++ body).getLast? := congrArg _ hbody
    rw [List.getLast?_append_of_ne_nil _ hne', List.getLast?_append_of_ne_nil _ hbodyne] at hlast
    rw [List.getLast?_eq_some_getLast hne'] at hlast
    exact ⟨_, hlast.symm, hblank' _ (List.getLast_mem hne')⟩

/-! ## Excerpts -/

namespace Source

/-- A line with its number, and so many carets behind so many blanks below it. -/
def drawing (number : Nat) (line : List Char) (blanks carets : Nat) : String :=
  let gutter := repeated ' ' (toString number).length
  s!"{number} | {String.ofList line}\n{gutter} | " ++
    repeated ' ' blanks ++ repeated '^' carets

/-- How many bytes a text has more than characters. -/
def surplus (cs : List Char) : Nat := String.utf8Len cs - cs.length

theorem length_le_utf8Len (cs : List Char) : cs.length ≤ String.utf8Len cs := by
  induction cs with
  | nil => exact Nat.le_refl 0
  | cons c cs ih =>
    have hpos := c.utf8Size_pos
    rw [String.utf8Len_cons, List.length_cons]
    omega

end Source

namespace Span

/-- The line on which the span starts, cut where it starts: the rest of the line starts with the text
of the span, or is the front of it. -/
structure StartsAt (s : Span) (source : String) (left right : List Char) : Prop where
  line : IsLine source s.start.line (left ++ right)
  column : left.length + 1 = s.start.column
  ends : s.stop.line = s.start.line → (s.textIn source).toList <+: right
  goesOn : s.stop.line ≠ s.start.line → right <+: (s.textIn source).toList

/-- The number of characters that the span has on its first line, up to its end or to that of the
line. -/
def shown (s : Span) (source : String) (right : List Char) : Nat :=
  if s.stop.line = s.start.line then (s.textIn source).length else right.length

/-- The carets that are drawn for no character. -/
def overdrawn (s : Span) (line : List Char) : Nat :=
  if s.stop.line = s.start.line then 0 else surplus line

variable {s : Span} {source : String} {before body behind : List Char}

theorem IsText.textIn_eq (h : s.IsText source before body behind) :
    s.textIn source = String.ofList body := by
  rw [textIn, h.start, h.stop, (Position.past_isBehind _).offset_eq,
    (Position.past_isBehind _).offset_eq, String.utf8Len_append,
    ← String.ofList_toList (s := source), h.text, ← List.append_assoc]
  exact String.extract_of_valid before body behind

/-- A span that stops on the line on which it starts has no newline. -/
theorem IsText.not_mem_newline_iff (h : s.IsText source before body behind) :
    '\n' ∉ body ↔ s.stop.line = s.start.line := by
  rw [h.start, h.stop, Position.past_append, Position.line_past _ body, ← List.count_eq_zero]
  omega

/-- A front of a text that stops with no blank and has no newline is in front of the end of the first
line. -/
theorem isPrefix_line {right returns below : List Char}
    (h : body ++ behind = right ++ (returns ++ below)) (hnewline : '\n' ∉ body)
    (hlast : ∀ c ∈ body.getLast?, c ≠ '\r') (hreturns : ∀ c ∈ returns, c = '\r')
    (hbelow : ∀ c ∈ below.head?, c = '\n') : body <+: right := by
  rcases List.append_eq_append_iff.mp h with ⟨more, rfl, -⟩ | ⟨more, rfl, hmore⟩
  · exact List.prefix_append body more
  cases more with
  | nil => exact ⟨[], by rw [List.append_nil, List.append_nil]⟩
  | cons c cs =>
    have hne : c :: cs ≠ [] := List.cons_ne_nil c cs
    rw [List.getLast?_append_of_ne_nil _ hne, List.getLast?_eq_some_getLast hne] at hlast
    have hmem : (c :: cs).getLast hne ∉ returns := fun hmem => hlast _ rfl (hreturns _ hmem)
    rcases List.append_eq_append_iff.mp hmore with ⟨rest, hrest, hrest'⟩ | ⟨rest, hrest, -⟩
    · cases rest with
      | nil =>
        rw [List.append_nil] at hrest
        exact absurd (hrest ▸ List.getLast_mem hne) hmem
      | cons d rest =>
        obtain rfl : d = '\n' := hbelow d (by rw [hrest']; rfl)
        exact absurd (by simp [hrest]) hnewline
    · exact absurd (hrest ▸ List.mem_append_left _ (List.getLast_mem hne)) hmem

/-- Where the span starts there is a line, and what is left of it is the front of the span or starts
with it. -/
theorem IsText.startsAt (h : s.IsText source before body behind) :
    ∃ left right, s.StartsAt source left right ∧ right ≠ [] := by
  have hproper {c : Char} (hc : Text.isBlank c = false) : c ≠ '\n' ∧ c ≠ '\r' := by
    constructor <;> rintro rfl <;> exact absurd hc (by decide)
  obtain ⟨c, hc, hblank⟩ := h.first
  have hfirst : c ∈ (body ++ behind).head? := by
    rw [List.head?_append, hc]
    rfl
  obtain ⟨left, right, returns, below, hrest, hne, hline, hcolumn, hreturns, hright, hbelow⟩ :=
    exists_line h.text hfirst (hproper hblank)
  refine ⟨left, right, ⟨h.start ▸ hline, h.start ▸ hcolumn, fun hstop => ?_, fun hstop => ?_⟩, hne⟩
  · obtain ⟨d, hd, hdblank⟩ := h.last
    have hlast : ∀ e ∈ body.getLast?, e ≠ '\r' := by
      rintro e he rfl
      obtain rfl := Option.some.inj (hd.symm.trans he)
      exact (hproper hdblank).2 rfl
    rw [h.textIn_eq, String.toList_ofList]
    exact isPrefix_line hrest (h.not_mem_newline_iff.mpr hstop) hlast hreturns hbelow
  · have hnewline : '\n' ∈ body := by_contra fun hmem => hstop (h.not_mem_newline_iff.mp hmem)
    rw [h.textIn_eq, String.toList_ofList]
    rcases List.append_eq_append_iff.mp hrest with ⟨more, rfl, -⟩ | ⟨more, rfl, -⟩
    · exact absurd (List.mem_append_left _ hnewline) hright
    · exact List.prefix_append right more

/-- The excerpt of a span quotes its line and draws a caret for each of its characters there, and for
each byte that the line has more than characters if the span goes on behind it. -/
theorem IsText.excerpt?_eq (h : s.IsText source before body behind) :
    ∃ left right, s.StartsAt source left right ∧
      excerpt? source s = some (drawing s.start.line (left ++ right) left.length
        (s.shown source right + s.overdrawn (left ++ right))) := by
  obtain ⟨left, right, hstarts, hne⟩ := h.startsAt
  refine ⟨left, right, hstarts, ?_⟩
  have hblanks : s.start.column - 1 = left.length := by
    rw [← hstarts.column, Nat.add_sub_cancel]
  have hcarets : caretCount (String.ofList (left ++ right)) s =
      s.shown source right + s.overdrawn (left ++ right) := by
    unfold caretCount shown overdrawn
    split
    · next hstop =>
      have hnewline := h.not_mem_newline_iff.mpr hstop
      have hcolumn : s.stop.column = s.start.column + body.length := by
        rw [h.start, h.stop, Position.past_append, Position.column_past _ hnewline]
      obtain ⟨c, hc, -⟩ := h.first
      obtain ⟨cs, rfl⟩ := List.head?_eq_some_iff.mp hc
      rw [h.textIn_eq, String.length_ofList, hcolumn, List.length_cons]
      omega
    · have hpos := List.length_pos_iff.mpr hne
      have hle := length_le_utf8Len (left ++ right)
      rw [surplus, String.utf8ByteSize_ofList, hblanks]
      rw [List.length_append] at hle ⊢
      omega
  rw [excerpt?, hstarts.line.line?_eq, Option.map_some, hblanks, hcarets]
  rfl

end Span

/-! ## Programs -/

namespace Program

open Grammar

variable {source : String} {p : Program} {s : Span} {ts : List Token} {last : Token}

/-- The spans of the tokens in front of the end of the file, of all nodes, and of a program with
functions. -/
inductive HasSpan (p : Program) (source : String) : Span → Prop
  | token {t : Token} (h : .token t ∈ scan source) (ht : t.isEnd = false) : HasSpan p source t.span
  | node {n : Node} (h : p.HasNode n) : HasSpan p source n.span
  | whole (h : p.functions ≠ []) : HasSpan p source p.span

/-- A program goes from its first token to its last one. -/
theorem span_bounds (h : readStrict source = .ok p) (htokens : tokenize source = .ok (ts ++ [last]))
    (hne : ts ≠ []) : p.span.Bounds ts := by
  have hscan := scan_of_tokenize htokens
  unfold readStrict at h
  cases hr : Reader.ofSource source with
  | error f => simp [hr] at h
  | ok r =>
    obtain ⟨hsound, -⟩ := Reader.sound_of_ofSource hr
    rcases hrun : Handling.strict.functions r with ⟨failure | fs, r'⟩
    · simp [hr, hrun] at h
    · simp only [hr, hrun] at h
      obtain rfl := Except.ok.inj h
      obtain ⟨-, -, us, ⟨hremaining, hprevious⟩, -⟩ :=
        Handling.functions_consumes r hsound.closed hsound.scoped fs r' hrun
      have hend := Reader.atEnd_of_functions hsound.closed (functions_follows.ok hrun)
      have hall := Reader.remaining_ofSource hr
      rw [hremaining, Reader.remaining] at hall
      have hnothing : r'.items = [] := scan_nothing_behind_end hall.symm hend
      rw [hnothing, hscan, List.map_append] at hall
      obtain ⟨hus, -⟩ := List.append_inj' hall rfl
      obtain rfl : us = ts := List.map_injective_iff.mpr (fun _ _ => Item.token.inj) hus
      obtain ⟨t, us, rfl⟩ := List.exists_cons_of_ne_nil hne
      have hcurrent : r.current = t := Item.token.inj (List.cons.inj hremaining).1
      have hlast : (t :: us).getLast? = some r'.previous := by
        rw [hprevious, List.getLast?_cons, Option.getD_some]
      rw [hcurrent]
      exact .merge_ends (tokenize_inOrder htokens) rfl hlast

/-- Every such span has text in the source. -/
theorem HasSpan.exists_text (h : p.HasSpan source s) (hread : read source = .ok p) :
    ∃ before body behind, s.IsText source before body behind := by
  have hstrict := readStrict_of_read hread
  have hlaid := laidIn_of_readStrict hstrict
  obtain ⟨ts, last, htokens, -, hparts⟩ := hlaid.parts
  have ho := tokenize_inOrder htokens
  have hend := not_isEnd_of_tokenize htokens
  have hscan := scan_of_tokenize htokens
  have htext {us : List Token} (hus : us.Sublist ts) (hbounds : s.Bounds us) :
      ∃ before body behind, s.IsText source before body behind := by
    refine hbounds.exists_text (ho.sublist hus) fun t ht => ⟨?_, hend t (hus.subset ht)⟩
    rw [hscan]
    exact List.mem_map_of_mem (List.mem_append_left _ (hus.subset ht))
  cases h with
  | @token t ht htend =>
    obtain ⟨ts', last', htokens', hlast, -⟩ := hlaid
    obtain ⟨rfl, hlast'⟩ := List.append_inj' (Except.ok.inj (htokens'.symm.trans htokens)) rfl
    obtain rfl : last' = last := List.singleton_inj.mp hlast'
    rw [hscan] at ht
    obtain ⟨u, hu, heq⟩ := List.mem_map.mp ht
    obtain rfl : u = t := Item.token.inj heq
    rcases List.mem_append.mp hu with hu | hu
    · exact htext (List.singleton_sublist.mpr hu) (Span.bounds_token u)
    · rw [List.mem_singleton.mp hu, Token.isEnd, hlast] at htend
      cases htend
  | node hn =>
    obtain ⟨us, hus, hlaid⟩ := hn.laid hparts
    exact htext hus.sublist hlaid.span
  | whole hne =>
    refine htext (List.Sublist.refl ts) (span_bounds hstrict htokens ?_)
    obtain ⟨f, fs, hfs⟩ := List.exists_cons_of_ne_nil hne
    obtain ⟨us, hus, hlaid⟩ := hparts.exists_of_mem
      (List.mem_flatMap.mpr ⟨f, hfs ▸ List.mem_cons_self, List.mem_append_right _ List.mem_cons_self⟩)
    rintro rfl
    exact hlaid.span.ne_nil (List.infix_nil.mp hus)

/-- **Excerpts underline the reported text.** Take any source text that is a program, and the span of
a token, of a node or of the program. Its excerpt quotes the line on which the span starts, without
what ends the line. The first caret is below the character at which the span starts. There is a caret
for each character of the span on that line: for all of them if the span ends there, otherwise for
those up to the end of the line, and then as many more as the line has more bytes than characters. -/
theorem excerpts_underline (h : read source = .ok p) (hs : p.HasSpan source s) :
    ∃ left right, s.StartsAt source left right ∧
      excerpt? source s = some (drawing s.start.line (left ++ right) left.length
        (s.shown source right + s.overdrawn (left ++ right))) := by
  obtain ⟨before, body, behind, htext⟩ := hs.exists_text h
  exact htext.excerpt?_eq

/-- A function of a given text with that span, found by reading the text. -/
theorem exists_function {source : String} {s : Span}
    (h : ((read source).toOption.any fun p => p.functions.any fun f => f.span == s) = true) :
    ∃ p, read source = .ok p ∧ p.HasSpan source s := by
  cases hread : read source with
  | error e =>
    rw [hread] at h
    cases h
  | ok p =>
    rw [hread] at h
    obtain ⟨f, hf, hspan⟩ := List.any_eq_true.mp h
    obtain rfl := eq_of_beq hspan
    have hnode : p.HasNode (.function f) := .top (List.mem_flatMap.mpr ⟨f, hf, by simp⟩)
    exact ⟨p, rfl, .node hnode⟩

/-- A function on several lines, the first of which ends in a carriage return. -/
theorem excerpts_underline_lines :
    ∃ p, read "// é\n  void f() \x7b \r\n\x7d" = .ok p ∧
      ∃ s, p.HasSpan "// é\n  void f() \x7b \r\n\x7d" s ∧
        excerpt? "// é\n  void f() \x7b \r\n\x7d" s = some "2 |   void f() \x7b \n  |   ^^^^^^^^^^^" ∧
        ∃ left right, s.StartsAt "// é\n  void f() \x7b \r\n\x7d" left right ∧
          excerpt? "// é\n  void f() \x7b \r\n\x7d" s =
            some (drawing s.start.line (left ++ right) left.length
              (s.shown "// é\n  void f() \x7b \r\n\x7d" right + s.overdrawn (left ++ right))) := by
  have hread : ((read "// é\n  void f() \x7b \r\n\x7d").toOption.any fun p =>
      p.functions.any fun f => f.span == ⟨⟨2, 3, 8⟩, ⟨3, 2, 22⟩⟩) = true := by
    decide +kernel
  obtain ⟨p, hp, hs⟩ := exists_function hread
  exact ⟨p, hp, _, hs, by decide +kernel, excerpts_underline hp hs⟩

/-- The span of a function goes on behind its first line, which has a character of two bytes: there is
a caret too many. -/
theorem excerpts_underline_accent :
    ∃ p, read "@kernel void k() \x7b /* é */\n\x7d" = .ok p ∧
      ∃ s, p.HasSpan "@kernel void k() \x7b /* é */\n\x7d" s ∧
        ∀ left right, s.StartsAt "@kernel void k() \x7b /* é */\n\x7d" left right →
          excerpt? "@kernel void k() \x7b /* é */\n\x7d" s ≠
            some (drawing s.start.line (left ++ right) left.length
              (s.shown "@kernel void k() \x7b /* é */\n\x7d" right)) := by
  have hread : ((read "@kernel void k() \x7b /* é */\n\x7d").toOption.any fun p =>
      p.functions.any fun f => f.span == ⟨⟨1, 9, 8⟩, ⟨2, 2, 29⟩⟩) = true := by
    decide +kernel
  obtain ⟨p, hp, hs⟩ := exists_function hread
  refine ⟨p, hp, _, hs, fun left right hstarts hexcerpt => ?_⟩
  have hquoted : line? "@kernel void k() \x7b /* é */\n\x7d" 1 =
      some (String.ofList "@kernel void k() \x7b /* é */".toList) := by
    decide +kernel
  have hline : left ++ right = "@kernel void k() \x7b /* é */".toList :=
    String.ofList_injective (Option.some.inj (hstarts.line.line?_eq.symm.trans hquoted))
  have hleft : left.length = 8 := Nat.succ.inj hstarts.column
  have hright : right.length = 18 := by
    have hlength := congrArg List.length hline
    rw [List.length_append, hleft] at hlength
    have htotal : "@kernel void k() \x7b /* é */".toList.length = 26 := by decide +kernel
    omega
  rw [hline, hleft, Span.shown, if_neg (by decide), hright] at hexcerpt
  exact absurd hexcerpt (by decide +kernel)

end Program

end LoopNest
