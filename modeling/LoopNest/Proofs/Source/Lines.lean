import LoopNest.Proofs.Token.Coverage
import LoopNest.Source.Excerpt

/-!
# The lines of a text

The scanner counts lines and columns in characters while it goes through a text, and an excerpt cuts
the text at its newlines. Both speak of the same lines.

* `Source.IsLine`: the text is the line of that number, without what ends it.
* `Source.IsLine.line?_eq`: that line is the one that is quoted.
* `Position.line_past`, `Position.column_past`: the place behind a text.
* `Source.exists_line`: where a place stands in its line.
-/

namespace LoopNest

/-! ## Texts that are cut at their newlines -/

namespace Source

variable {cs ds : List Char}

theorem pieces_cons (c : Char) (cs : List Char) : pieces (c :: cs) = addFront c (pieces cs) := rfl

theorem pieces_ne_nil (cs : List Char) : pieces cs ≠ [] := by
  cases cs with
  | nil => exact List.cons_ne_nil _ _
  | cons c cs =>
    rw [pieces_cons]
    unfold addFront
    split
    · exact List.cons_ne_nil _ _
    · split <;> exact List.cons_ne_nil _ _

theorem pieces_of_not_mem (h : '\n' ∉ cs) : pieces cs = [cs] := by
  induction cs with
  | nil => rfl
  | cons c cs ih =>
    obtain ⟨hc, hcs⟩ := List.ne_and_not_mem_of_not_mem_cons h
    rw [pieces_cons, ih hcs, addFront, if_neg (Ne.symm hc)]

theorem pieces_append_newline (cs ds : List Char) :
    pieces (cs ++ '\n' :: ds) = pieces cs ++ pieces ds := by
  induction cs with
  | nil => rfl
  | cons c cs ih =>
    obtain ⟨p, ps, hps⟩ := List.exists_cons_of_ne_nil (pieces_ne_nil cs)
    rw [List.cons_append, pieces_cons, pieces_cons, ih, hps]
    unfold addFront
    split <;> rfl

theorem length_pieces (cs : List Char) : (pieces cs).length = cs.count '\n' + 1 := by
  induction cs with
  | nil => rfl
  | cons c cs ih =>
    obtain ⟨p, ps, hps⟩ := List.exists_cons_of_ne_nil (pieces_ne_nil cs)
    rw [pieces_cons, List.count_cons]
    rw [hps] at ih ⊢
    unfold addFront
    by_cases hc : c = '\n'
    · simpa [hc] using ih
    · simpa [hc] using ih

/-- The piece behind so many newlines. -/
theorem getElem?_pieces {above line below : List Char} (habove : ∀ c ∈ above.getLast?, c = '\n')
    (hline : '\n' ∉ line) (hbelow : ∀ c ∈ below.head?, c = '\n') :
    (pieces (above ++ (line ++ below)))[above.count '\n']? = some line := by
  have hfirst : (pieces (line ++ below))[0]? = some line := by
    cases below with
    | nil => rw [List.append_nil, pieces_of_not_mem hline]; rfl
    | cons c below =>
      obtain rfl := hbelow c rfl
      rw [pieces_append_newline, pieces_of_not_mem hline]
      rfl
  rcases List.eq_nil_or_concat above with rfl | ⟨front, c, rfl⟩
  · exact hfirst
  · obtain rfl := habove c (by simp)
    have hcount : (front.concat '\n').count '\n' = (pieces front).length := by
      rw [length_pieces, List.concat_eq_append, List.count_append]
      rfl
    rw [hcount, List.concat_eq_append, List.append_assoc, List.singleton_append,
      pieces_append_newline, List.getElem?_append_right (Nat.le_refl _), Nat.sub_self]
    exact hfirst

/-- A line ends with something other than a carriage return, with nothing but these behind it. -/
theorem exists_returns (cs : List Char) : ∃ returns, cs = withoutReturns cs ++ returns ∧
    (∀ c ∈ returns, c = '\r') ∧ ∀ c ∈ (withoutReturns cs).getLast?, c ≠ '\r' := by
  refine ⟨(cs.reverse.takeWhile (· == '\r')).reverse, ?_, fun c hc => ?_, fun c hc => ?_⟩
  · rw [withoutReturns, ← List.reverse_append, List.takeWhile_append_dropWhile, List.reverse_reverse]
  · have hall := List.all_eq_true.mp List.all_takeWhile _ (List.mem_reverse.mp hc)
    simpa using hall
  · rw [withoutReturns, List.getLast?_reverse] at hc
    have hstop := List.head?_dropWhile_not (· == '\r') cs.reverse
    rw [Option.mem_def.mp hc] at hstop
    simpa using hstop

theorem withoutReturns_append {line returns : List Char} (hline : ∀ c ∈ line.getLast?, c ≠ '\r')
    (hreturns : ∀ c ∈ returns, c = '\r') : withoutReturns (line ++ returns) = line := by
  have hdrop : line.reverse.dropWhile (· == '\r') = line.reverse := by
    cases hreverse : line.reverse with
    | nil => rfl
    | cons c cs =>
      have hlast : c ∈ line.getLast? := by
        rw [← List.head?_reverse, hreverse]
        rfl
      exact List.dropWhile_cons_of_neg (by simpa using hline c hlast)
  have hskip : ∀ c ∈ returns.reverse, (c == '\r') = true := fun c hc => by
    simpa using hreturns c (List.mem_reverse.mp hc)
  rw [withoutReturns, List.reverse_append, List.dropWhile_append_of_pos hskip, hdrop,
    List.reverse_reverse]

/-! ## Lines -/

/-- The text is the line of that number, counted from one. It is ended by carriage returns and a
newline, or by the end of the source, none of which are part of it. -/
def IsLine (source : String) (n : Nat) (line : List Char) : Prop :=
  ∃ above returns below, source.toList = above ++ (line ++ (returns ++ below)) ∧
    above.count '\n' + 1 = n ∧ (∀ c ∈ above.getLast?, c = '\n') ∧ '\n' ∉ line ∧
    (∀ c ∈ line.getLast?, c ≠ '\r') ∧ (∀ c ∈ returns, c = '\r') ∧ ∀ c ∈ below.head?, c = '\n'

/-- That line is the one that is quoted. -/
theorem IsLine.line?_eq {source : String} {n : Nat} {line : List Char} (h : IsLine source n line) :
    line? source n = some (String.ofList line) := by
  obtain ⟨above, returns, below, hsource, rfl, habove, hline, hlast, hreturns, hbelow⟩ := h
  have hnewline : '\n' ∉ line ++ returns := by
    rw [List.mem_append]
    rintro (h | h)
    · exact hline h
    · exact absurd (hreturns _ h) (by decide)
  rw [line?, lines, List.getElem?_map, hsource, ← List.append_assoc line,
    getElem?_pieces habove hnewline hbelow, Option.map_some, withoutReturns_append hlast hreturns]

/-- A text has a last newline, or none from its start on. -/
theorem exists_lineStart (cs : List Char) :
    ∃ above left, cs = above ++ left ∧ '\n' ∉ left ∧ ∀ c ∈ above.getLast?, c = '\n' := by
  obtain ⟨body, rest, hcs, hbody, hrest⟩ := exists_lineEnd cs.reverse
  refine ⟨rest.reverse, body.reverse, ?_, ?_, ?_⟩
  · rw [← List.reverse_append, ← hcs, List.reverse_reverse]
  · rwa [List.mem_reverse]
  · rwa [List.getLast?_reverse]

end Source

/-! ## Places -/

namespace Position

theorem line_past (p : Position) (cs : List Char) : (p.past cs).line = p.line + cs.count '\n' := by
  induction cs generalizing p with
  | nil => rfl
  | cons c cs ih =>
    rw [past_cons, ih, List.count_cons, next]
    by_cases hc : c = '\n'
    · simp [hc]
      omega
    · simp [hc]

theorem column_past (p : Position) {cs : List Char} (h : '\n' ∉ cs) :
    (p.past cs).column = p.column + cs.length := by
  induction cs generalizing p with
  | nil => rfl
  | cons c cs ih =>
    obtain ⟨hc, hcs⟩ := List.ne_and_not_mem_of_not_mem_cons h
    rw [past_cons, ih _ hcs, next, if_neg (Ne.symm hc), List.length_cons]
    dsimp only
    omega

/-- Behind a newline a line starts. -/
theorem column_past_newline {above : List Char} (h : ∀ c ∈ above.getLast?, c = '\n') :
    (start.past above).column = 1 := by
  rcases List.eq_nil_or_concat above with rfl | ⟨front, c, rfl⟩
  · rfl
  · obtain rfl := h c (by simp)
    rw [List.concat_eq_append, past_concat, next, if_pos rfl]

end Position

/-- A place stands in a line, behind as many characters as its column says. What is left of the line
goes up to its newline. -/
theorem Source.exists_line {source : String} {before rest : List Char}
    (h : source.toList = before ++ rest) {c : Char} (hc : c ∈ rest.head?)
    (hc' : c ≠ '\n' ∧ c ≠ '\r') :
    ∃ left right returns below, rest = right ++ (returns ++ below) ∧ right ≠ [] ∧
      IsLine source (Position.start.past before).line (left ++ right) ∧
      left.length + 1 = (Position.start.past before).column ∧
      (∀ c ∈ returns, c = '\r') ∧ '\n' ∉ right ∧ ∀ c ∈ below.head?, c = '\n' := by
  obtain ⟨above, left, rfl, hleft, habove⟩ := exists_lineStart before
  obtain ⟨onLine, below, rfl, honLine, hbelow⟩ := exists_lineEnd rest
  obtain ⟨returns, hright, hreturns, hlast⟩ := exists_returns onLine
  generalize withoutReturns onLine = right at hright hlast
  subst hright
  have hright : '\n' ∉ right := fun hmem => honLine (List.mem_append_left _ hmem)
  have hne : right ≠ [] := by
    rintro rfl
    rw [List.nil_append] at hc
    cases returns with
    | nil => exact hc'.1 (hbelow c hc)
    | cons d returns =>
      obtain rfl : d = c := Option.some.inj hc
      exact hc'.2 (hreturns d List.mem_cons_self)
  refine ⟨left, right, returns, below, List.append_assoc _ _ _, hne, ?_, ?_, hreturns, hright, hbelow⟩
  · refine ⟨above, returns, below, ?_, ?_, habove, ?_, ?_, hreturns, hbelow⟩
    · rw [h]
      simp only [List.append_assoc]
    · rw [Position.line_past, List.count_append, List.count_eq_zero_of_not_mem hleft]
      exact Nat.add_comm _ _
    · rw [List.mem_append]
      exact fun hmem => hmem.elim hleft hright
    · rw [List.getLast?_append_of_ne_nil _ hne]
      exact hlast
  · rw [Position.past_append, Position.column_past _ hleft, Position.column_past_newline habove]
    exact Nat.add_comm _ _

end LoopNest
