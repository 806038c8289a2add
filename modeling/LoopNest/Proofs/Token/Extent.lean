import LoopNest.Proofs.Token.Coverage
import LoopNest.Proofs.Token.Ending

/-!
# Where tokens stand

Tokens in a row stand one behind the other. A row goes from the start of its first token to the end
of its last one, and the spans of its parts are put together by `Span.merge`.

* `Token.InOrder`: tokens one behind the other.
* `Span.Bounds`: the span goes from the first token to the last one.
* `Span.Bounds.merge`: a span that starts a row and one that ends it make that of the row.
* `Span.Bounds.inside`, `Span.Bounds.before`: parts of a row lie in it, and in their order.
* `Token.inOrder_of_scan`, `tokenize_inOrder`: the tokens of a source stand in order.
-/

namespace LoopNest

/-- The tokens stand one behind the other, and each of them has some text. -/
structure Token.InOrder (ts : List Token) : Prop where
  apart : ts.Pairwise fun t u => t.span.stop.offset ≤ u.span.start.offset
  nonempty : ∀ t ∈ ts, t.span.start.offset < t.span.stop.offset
  line_pos : ∀ t ∈ ts, 0 < t.span.start.line

namespace Token.InOrder

variable {ts us vs : List Token} {t u : Token}

theorem sublist (h : InOrder ts) (hsub : us.Sublist ts) : InOrder us :=
  ⟨h.apart.sublist hsub, fun t ht => h.nonempty t (hsub.subset ht),
    fun t ht => h.line_pos t (hsub.subset ht)⟩

theorem left (h : InOrder (ts ++ us)) : InOrder ts := h.sublist (List.sublist_append_left ts us)

theorem right (h : InOrder (ts ++ us)) : InOrder us := h.sublist (List.sublist_append_right ts us)

theorem tail (h : InOrder (t :: ts)) : InOrder ts := h.sublist (List.sublist_cons_self t ts)

/-- The first token starts in front of the others. -/
theorem first_lt (h : InOrder (t :: ts)) (hu : u ∈ ts) :
    t.span.start.offset < u.span.start.offset :=
  Nat.lt_of_lt_of_le (h.nonempty t List.mem_cons_self) ((List.pairwise_cons.mp h.apart).1 u hu)

theorem first_le (h : InOrder ts) (ht : t ∈ ts.head?) (hu : u ∈ ts) :
    t.span.start.offset ≤ u.span.start.offset := by
  obtain ⟨ts, rfl⟩ := List.head?_eq_some_iff.mp ht
  rcases List.mem_cons.mp hu with rfl | hu
  · exact Nat.le_refl _
  · exact Nat.le_of_lt (h.first_lt hu)

/-- The last token stops behind all others. -/
theorem eq_or_lt_last (h : InOrder ts) (ht : t ∈ ts.getLast?) (hu : u ∈ ts) :
    u = t ∨ u.span.stop.offset < t.span.stop.offset := by
  obtain ⟨ts, rfl⟩ := List.getLast?_eq_some_iff.mp ht
  rcases List.mem_append.mp hu with hu | hu
  · have hapart := (List.pairwise_append.mp h.apart).2.2 u hu t List.mem_cons_self
    have hpos := h.nonempty t (by simp)
    exact .inr (by omega)
  · exact .inl (List.mem_singleton.mp hu)

end Token.InOrder

namespace Span

open Token

/-- The span goes from the start of the first token to the end of the last one. -/
structure Bounds (s : Span) (ts : List Token) : Prop where
  first : ∃ t ∈ ts.head?, s.start = t.span.start
  last : ∃ t ∈ ts.getLast?, s.stop = t.span.stop

variable {s s' : Span} {ts us vs : List Token}

theorem bounds_token (t : Token) : t.span.Bounds [t] := ⟨⟨t, rfl, rfl⟩, t, rfl, rfl⟩

namespace Bounds

theorem ne_nil (h : s.Bounds ts) : ts ≠ [] := by
  rintro rfl
  obtain ⟨t, ht, -⟩ := h.first
  cases ht

/-- A row has some text. -/
theorem nonempty (h : s.Bounds ts) (ho : InOrder ts) : s.start.offset < s.stop.offset := by
  obtain ⟨⟨a, ha, hstart⟩, b, hb, hstop⟩ := h
  have hle := ho.first_le ha (List.mem_of_mem_getLast? hb)
  have hpos := ho.nonempty b (List.mem_of_mem_getLast? hb)
  rw [hstart, hstop]
  omega

/-- A span of the front of a row and one of its rear make the span of the row. -/
theorem merge (h : s.Bounds us) (h' : s'.Bounds vs) (ho : InOrder ts) (hus : us <+: ts)
    (hvs : vs <:+ ts) : (s.merge s').Bounds ts := by
  obtain ⟨⟨a, ha, hstart⟩, b, hb, hstop⟩ := h
  obtain ⟨⟨c, hc, hstart'⟩, d, hd, hstop'⟩ := h'
  have hfirst : a ∈ ts.head? := by
    obtain ⟨ws, rfl⟩ := hus
    rw [List.head?_append, ha]
    rfl
  have hlast : d ∈ ts.getLast? := by
    obtain ⟨ws, rfl⟩ := hvs
    rw [List.getLast?_append, hd]
    rfl
  have hamem : a ∈ ts := List.mem_of_mem_head? hfirst
  have hbmem : b ∈ ts := hus.subset (List.mem_of_mem_getLast? hb)
  have hcmem : c ∈ ts := hvs.subset (List.mem_of_mem_head? hc)
  have hle : s.start.offset ≤ s'.start.offset := by
    rw [hstart, hstart']
    exact ho.first_le hfirst hcmem
  have hmerge : s.merge s' = ⟨s.start, if s'.stop.offset ≤ s.stop.offset then s.stop else s'.stop⟩ := by
    have hline : 0 < s.start.line := hstart ▸ ho.line_pos a hamem
    have hline' : 0 < s'.start.line := hstart' ▸ ho.line_pos c hcmem
    rw [Span.merge, if_neg (by simp [isNone]; omega), if_neg (by simp [isNone]; omega), if_pos hle]
  refine ⟨⟨a, hfirst, by rw [hmerge, hstart]⟩, d, hlast, ?_⟩
  rw [hmerge]
  rcases ho.eq_or_lt_last hlast hbmem with rfl | hlt
  · rw [hstop, hstop', ite_self]
  · rw [hstop', hstop, if_neg (by omega)]

/-- From the first token of a row to its last one. -/
theorem merge_ends {t u : Token} (ho : InOrder ts) (ht : t ∈ ts.head?) (hu : u ∈ ts.getLast?) :
    (t.span.merge u.span).Bounds ts := by
  obtain ⟨us, rfl⟩ := List.head?_eq_some_iff.mp ht
  obtain ⟨vs, hvs⟩ := List.getLast?_eq_some_iff.mp hu
  exact (bounds_token t).merge (bounds_token u) ho ⟨us, rfl⟩ ⟨vs, hvs.symm⟩

/-- From a bracket that opens to the one that closes. -/
theorem brackets {t u : Token} (ho : InOrder (t :: (ts ++ [u]))) :
    (t.span.merge u.span).Bounds (t :: (ts ++ [u])) :=
  merge_ends ho rfl (List.getLast?_eq_some_iff.mpr ⟨t :: ts, rfl⟩)

/-- Parts of a row lie in it. -/
theorem inside (h : s.Bounds us) (h' : s'.Bounds ts) (ho : InOrder ts) (hsub : us ⊆ ts) :
    s'.start.offset ≤ s.start.offset ∧ s.stop.offset ≤ s'.stop.offset := by
  obtain ⟨⟨a, ha, hstart⟩, b, hb, hstop⟩ := h
  obtain ⟨⟨c, hc, hstart'⟩, d, hd, hstop'⟩ := h'
  have hle := ho.first_le hc (hsub (List.mem_of_mem_head? ha))
  have hle' := ho.eq_or_lt_last hd (hsub (List.mem_of_mem_getLast? hb))
  rw [hstart, hstart', hstop, hstop']
  refine ⟨hle, ?_⟩
  rcases hle' with rfl | hlt
  · exact Nat.le_refl _
  · exact Nat.le_of_lt hlt

/-- The front of a row lies in front of its rear. -/
theorem before (h : s.Bounds us) (h' : s'.Bounds vs) (ho : InOrder (us ++ vs)) :
    s.stop.offset ≤ s'.start.offset := by
  obtain ⟨-, b, hb, hstop⟩ := h
  obtain ⟨⟨c, hc, hstart'⟩, -⟩ := h'
  rw [hstop, hstart']
  exact (List.pairwise_append.mp ho.apart).2.2 b (List.mem_of_mem_getLast? hb) c
    (List.mem_of_mem_head? hc)

end Bounds

end Span

/-- In front of the last token there is no end of the file. -/
theorem not_isEnd_of_tokenize {source : String} {ts : List Token} {last : Token}
    (h : tokenize source = .ok (ts ++ [last])) : ∀ t ∈ ts, t.isEnd = false := by
  intro t ht
  obtain ⟨us, vs, rfl⟩ := List.append_of_mem ht
  by_contra hend
  have hscan : scan source = us.map .token ++ .token t :: (vs ++ [last]).map .token := by
    rw [scan_of_tokenize h]
    simp
  have hnil := scan_nothing_behind_end hscan (Bool.not_eq_false _ ▸ hend)
  simp at hnil

/-- Tokens of a source in front of the end of the file stand in order. -/
theorem Token.inOrder_of_scan {source : String} {ts : List Token}
    (hsub : (ts.map .token).Sublist (scan source)) (hend : ∀ t ∈ ts, t.isEnd = false) :
    Token.InOrder ts := by
  have hcovers := covers_scan source
  have hmem (t : Token) (ht : t ∈ ts) : .token t ∈ scan source :=
    hsub.subset (List.mem_map_of_mem ht)
  refine ⟨?_, fun t ht => hcovers.nonempty _ (hmem t ht) (hend t ht), fun t ht => ?_⟩
  · have hordered := hcovers.ordered.sublist hsub
    rw [List.pairwise_map] at hordered
    exact hordered
  · have hproper : t.Proper := (scan_spec source).1 _ (hmem t ht)
    exact hproper.line_pos

theorem tokenize_inOrder {source : String} {ts : List Token} {last : Token}
    (h : tokenize source = .ok (ts ++ [last])) : Token.InOrder ts := by
  have hsub : (ts.map .token).Sublist (scan source) := by
    rw [scan_of_tokenize h, List.map_append]
    exact List.sublist_append_left _ _
  exact Token.inOrder_of_scan hsub (not_isEnd_of_tokenize h)

end LoopNest
