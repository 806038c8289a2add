import LoopNest.Proofs.Token.Coverage

/-!
# Merging spans

Among the spans of one source, `Span.merge` is the join of the order in which a span lies inside
another one, and the span that points nowhere is below all of them. A span is told by its offsets
then: without that, two spans at the same offsets might be on different lines, and it would matter
which of them comes first.

* `Position.IsAt`: a position has the line and the column that belong to its offset.
* `Span.Coherent`: a span between two such positions.
* `Span.Coherent.merge`: the start of the merged span is the lesser one, its end the greater one.
* `Span.merge_join`: the laws of a join.
* `scan_coherent`: the spans of the items of a source are coherent.
-/

namespace LoopNest

/-! ## Coherent positions and spans -/

/-- The position is on some line, and `placeOf` gives its line and its column to its offset. -/
structure Position.IsAt (placeOf : Nat → Nat × Nat) (p : Position) : Prop where
  line_pos : 0 < p.line
  place_eq : placeOf p.offset = (p.line, p.column)

/-- Positions are told by their offsets. -/
theorem Position.IsAt.eq_of_offset {placeOf : Nat → Nat × Nat} {p q : Position}
    (hp : p.IsAt placeOf) (hq : q.IsAt placeOf) (h : p.offset = q.offset) : p = q := by
  have hplace : (p.line, p.column) = (q.line, q.column) := by
    rw [← hp.place_eq, ← hq.place_eq, h]
  obtain ⟨hline, hcolumn⟩ := Prod.mk.inj hplace
  cases p
  cases q
  simp_all

namespace Span

/-- The span lies in a source whose offsets are at the lines and columns that `placeOf` gives. -/
structure Coherent (placeOf : Nat → Nat × Nat) (s : Span) : Prop where
  start_at : s.start.IsAt placeOf
  stop_at : s.stop.IsAt placeOf
  start_le : s.start.offset ≤ s.stop.offset

/-- The span points nowhere, or it lies in that source. -/
def CoherentOrNone (placeOf : Nat → Nat × Nat) (s : Span) : Prop := s = none ∨ s.Coherent placeOf

/-- The text of `t` is part of the text of `s`. -/
def Contains (s t : Span) : Prop :=
  s.start.offset ≤ t.start.offset ∧ t.stop.offset ≤ s.stop.offset

variable {placeOf : Nat → Nat × Nat} {s t u : Span}

/-! ## Merging two spans -/

theorem none_merge (s : Span) : none.merge s = s := rfl

theorem merge_none (s : Span) (h : s.CoherentOrNone placeOf) : s.merge none = s := by
  rcases h with rfl | h
  · rfl
  · have hline := h.start_at.line_pos
    rw [merge, if_neg (by simp [isNone]; omega)]
    rfl

namespace Coherent

theorem isNone_eq (h : s.Coherent placeOf) : s.isNone = false := by
  have hline := h.start_at.line_pos
  simp [isNone]
  omega

/-- Spans are told by their offsets. -/
theorem eq_of_offsets (hs : s.Coherent placeOf) (ht : t.Coherent placeOf)
    (hstart : s.start.offset = t.start.offset) (hstop : s.stop.offset = t.stop.offset) : s = t := by
  have hstart := hs.start_at.eq_of_offset ht.start_at hstart
  have hstop := hs.stop_at.eq_of_offset ht.stop_at hstop
  cases s
  cases t
  simp_all

/-- The merged span is coherent. It starts where the first of the two starts, and ends where the
last of them ends. -/
theorem merge (hs : s.Coherent placeOf) (ht : t.Coherent placeOf) :
    (s.merge t).Coherent placeOf ∧
      (s.merge t).start.offset = min s.start.offset t.start.offset ∧
      (s.merge t).stop.offset = max s.stop.offset t.stop.offset := by
  have hmerge : s.merge t = ⟨if s.start.offset ≤ t.start.offset then s.start else t.start,
      if t.stop.offset ≤ s.stop.offset then s.stop else t.stop⟩ := by
    rw [Span.merge, if_neg (by simp [hs.isNone_eq]), if_neg (by simp [ht.isNone_eq])]
  have hstart : (s.merge t).start.offset = min s.start.offset t.start.offset := by
    rw [hmerge]
    dsimp only
    split <;> omega
  have hstop : (s.merge t).stop.offset = max s.stop.offset t.stop.offset := by
    rw [hmerge]
    dsimp only
    split <;> omega
  refine ⟨⟨?_, ?_, ?_⟩, hstart, hstop⟩
  · rw [hmerge]
    dsimp only
    split
    · exact hs.start_at
    · exact ht.start_at
  · rw [hmerge]
    dsimp only
    split
    · exact hs.stop_at
    · exact ht.stop_at
  · have hle := hs.start_le
    omega

theorem merge_comm (hs : s.Coherent placeOf) (ht : t.Coherent placeOf) :
    s.merge t = t.merge s := by
  obtain ⟨hst, hstart, hstop⟩ := hs.merge ht
  obtain ⟨hts, hstart', hstop'⟩ := ht.merge hs
  apply hst.eq_of_offsets hts
  · rw [hstart, hstart', Nat.min_comm]
  · rw [hstop, hstop', Nat.max_comm]

theorem merge_assoc (hs : s.Coherent placeOf) (ht : t.Coherent placeOf) (hu : u.Coherent placeOf) :
    (s.merge t).merge u = s.merge (t.merge u) := by
  obtain ⟨hst, hstart, hstop⟩ := hs.merge ht
  obtain ⟨htu, hstart', hstop'⟩ := ht.merge hu
  obtain ⟨hleft, hleftStart, hleftStop⟩ := hst.merge hu
  obtain ⟨hright, hrightStart, hrightStop⟩ := hs.merge htu
  apply hleft.eq_of_offsets hright
  · rw [hleftStart, hrightStart, hstart, hstart', Nat.min_assoc]
  · rw [hleftStop, hrightStop, hstop, hstop', Nat.max_assoc]

theorem merge_self (hs : s.Coherent placeOf) : s.merge s = s := by
  obtain ⟨hss, hstart, hstop⟩ := hs.merge hs
  apply hss.eq_of_offsets hs
  · rw [hstart, Nat.min_self]
  · rw [hstop, Nat.max_self]

end Coherent

/-- Merging does not lead out of the source. -/
theorem CoherentOrNone.merge (hs : s.CoherentOrNone placeOf) (ht : t.CoherentOrNone placeOf) :
    (s.merge t).CoherentOrNone placeOf := by
  rcases hs with rfl | hs
  · exact ht
  · rcases ht with rfl | ht
    · rw [merge_none s (.inr hs)]
      exact .inr hs
    · exact .inr (hs.merge ht).1

/-! ## The laws of a join -/

/-- **Merging is a join.** Among the spans of a source and the one that points nowhere, merging is
associative, commutative and idempotent, and the latter changes nothing. What two spans of the
source are merged to is a span of it that contains both, and every other one that contains both
contains it. -/
theorem merge_join (placeOf : Nat → Nat × Nat) :
    (∀ s t u : Span, s.CoherentOrNone placeOf → t.CoherentOrNone placeOf →
      u.CoherentOrNone placeOf → (s.merge t).merge u = s.merge (t.merge u)) ∧
    (∀ s t : Span, s.CoherentOrNone placeOf → t.CoherentOrNone placeOf →
      (s.merge t).CoherentOrNone placeOf ∧ s.merge t = t.merge s) ∧
    (∀ s : Span, s.CoherentOrNone placeOf →
      s.merge s = s ∧ none.merge s = s ∧ s.merge none = s) ∧
    ∀ s t : Span, s.Coherent placeOf → t.Coherent placeOf →
      (s.merge t).Coherent placeOf ∧ (s.merge t).Contains s ∧ (s.merge t).Contains t ∧
        ∀ u : Span, u.Coherent placeOf → u.Contains s → u.Contains t → u.Contains (s.merge t) := by
  refine ⟨fun s t u hs ht hu => ?_, fun s t hs ht => ?_, fun s hs => ?_, fun s t hs ht => ?_⟩
  · -- a span that points nowhere drops out on both sides
    rcases hs with rfl | hs
    · rw [none_merge, none_merge]
    · rcases ht with rfl | ht
      · rw [none_merge, merge_none s (.inr hs)]
      · rcases hu with rfl | hu
        · rw [merge_none t (.inr ht), merge_none _ (.inr (hs.merge ht).1)]
        · exact hs.merge_assoc ht hu
  · refine ⟨hs.merge ht, ?_⟩
    rcases hs with rfl | hs
    · rw [none_merge, merge_none t ht]
    · rcases ht with rfl | ht
      · rw [none_merge, merge_none s (.inr hs)]
      · exact hs.merge_comm ht
  · refine ⟨?_, none_merge s, merge_none s hs⟩
    rcases hs with rfl | hs
    · rfl
    · exact hs.merge_self
  · obtain ⟨hst, hstart, hstop⟩ := hs.merge ht
    refine ⟨hst, ⟨?_, ?_⟩, ⟨?_, ?_⟩, fun u _ hus hut => ⟨?_, ?_⟩⟩
    · exact hstart ▸ Nat.min_le_left _ _
    · exact hstop ▸ Nat.le_max_left _ _
    · exact hstart ▸ Nat.min_le_right _ _
    · exact hstop ▸ Nat.le_max_right _ _
    · exact hstart ▸ Nat.le_min.mpr ⟨hus.1, hut.1⟩
    · exact hstop ▸ Nat.max_le.mpr ⟨hus.2, hut.2⟩

/-- A span of the first of two lines, one that goes on to the second, and one that points nowhere. -/
theorem merge_join_two_lines :
    let placeOf : Nat → Nat × Nat := fun o => if o < 4 then (1, o + 1) else (2, o - 3)
    let a : Span := ⟨⟨1, 2, 1⟩, ⟨1, 4, 3⟩⟩
    let b : Span := ⟨⟨1, 3, 2⟩, ⟨2, 3, 6⟩⟩
    a.Coherent placeOf ∧ b.Coherent placeOf ∧
      (a.merge none).merge b = a.merge (none.merge b) ∧ a.merge b = b.merge a ∧
      a.merge a = a ∧ a.merge none = a ∧ (a.merge b).Coherent placeOf ∧
      (a.merge b).Contains a ∧ (a.merge b).Contains b := by
  intro placeOf a b
  have ha : a.Coherent placeOf := ⟨⟨by decide, rfl⟩, ⟨by decide, rfl⟩, by decide⟩
  have hb : b.Coherent placeOf := ⟨⟨by decide, rfl⟩, ⟨by decide, rfl⟩, by decide⟩
  obtain ⟨hassoc, hcomm, hself, hleast⟩ := merge_join placeOf
  obtain ⟨hmerge, hcontains, hcontains', -⟩ := hleast a b ha hb
  exact ⟨ha, hb, hassoc a none b (.inr ha) (.inl rfl) (.inr hb), (hcomm a b (.inr ha) (.inr hb)).2,
    (hself a (.inr ha)).1, (hself a (.inr ha)).2.2, hmerge, hcontains, hcontains'⟩

end Span

/-! ## The spans of a source -/

/-- The line and the column of an offset of the source: those behind the text in front of it. -/
def Source.placeOf (source : String) (offset : Nat) : Nat × Nat :=
  let p := Position.start.past (String.Pos.Raw.extract source 0 ⟨offset⟩).toList
  (p.line, p.column)

/-- A position between two characters of the source is where it should be. -/
theorem Position.IsBehind.isAt {source : String} {p : Position} {before behind : List Char}
    (h : p.IsBehind before) (hsource : source.toList = before ++ behind) :
    p.IsAt (Source.placeOf source) := by
  have hfront : String.Pos.Raw.extract source 0 ⟨p.offset⟩ = String.ofList before := by
    have hextract := String.extract_of_valid [] before behind
    rw [List.nil_append, ← hsource, String.ofList_toList, String.utf8Len_nil, Nat.zero_add] at hextract
    rw [h.offset_eq]
    exact hextract
  have hbefore := past_isBehind before
  refine ⟨?_, ?_⟩
  · rw [h.line_eq]
    omega
  · rw [Source.placeOf, hfront, String.toList_ofList, h.line_eq, h.column_eq, hbefore.line_eq,
      hbefore.column_eq]

/-- The spans of the tokens and faults of a source are coherent, so that what is merged from them
is so as well. -/
theorem scan_coherent (source : String) :
    ∀ i ∈ scan source, i.span.Coherent (Source.placeOf source) := by
  have hcovers := covers_scan source
  intro i hi
  have hplaced (p : Position) (hp : p ∈ [i.span.start, i.span.stop]) :
      p.IsAt (Source.placeOf source) := by
    obtain ⟨-, before, behind, hsource, hbehind⟩ := hcovers.placed i hi p hp
    exact hbehind.isAt hsource
  refine ⟨hplaced _ (by simp), hplaced _ (by simp), ?_⟩
  cases hend : i.isEnd with
  | true =>
    rw [(hcovers.atEnd i hi hend).2]
  | false => exact Nat.le_of_lt (hcovers.nonempty i hi hend)

end LoopNest
