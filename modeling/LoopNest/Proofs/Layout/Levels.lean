import LoopNest.Proofs.Token.Indentation
import Mathlib.Data.List.Induction

/-!
# Levels of indentation

The text of a layout depends on what is written and on the level at which each line starts, and on
nothing else: not on how the text is cut into pieces, and not on what the level is inside of a line
or in front of an empty one.

* `Layout.levelFrom`: the level behind some steps; `Layout.greatest_levelFrom` says it as a number of
  steps that are there.
* `Layout.letters`: the characters that are written, each with the level of that moment.
* `Layout.indentedText`: these characters, with indentation in front of the lines that have some.
* `Layout.run_text`: this is the text of the layout.
-/

namespace LoopNest

namespace Layout

/-! ## Levels -/

/-- The level behind a step. -/
def Step.levelBehind (level : Nat) : Step → Nat
  | write _ => level
  | indent => level + 1
  | dedent => level - 1

/-- The level behind some steps. -/
def levelFrom (level : Nat) (steps : List Step) : Nat := steps.foldl Step.levelBehind level

theorem levelFrom_concat (level : Nat) (steps : List Step) (step : Step) :
    levelFrom level (steps ++ [step]) = step.levelBehind (levelFrom level steps) := by
  simp [levelFrom, List.foldl_append]

/-- By how much the steps in outnumber the steps out, if they do. -/
def excess (steps : List Step) : Nat := steps.count .indent - steps.count .dedent

section

variable (steps : List Step)

theorem excess_write (s : String) : excess (steps ++ [.write s]) = excess steps := by
  simp [excess, List.count_append]

theorem excess_indent :
    excess (steps ++ [.indent]) = steps.count .indent + 1 - steps.count .dedent := by
  simp [excess, List.count_append]

theorem excess_dedent : excess (steps ++ [.dedent]) = excess steps - 1 := by
  simp [excess, List.count_append]
  omega

/-- A step out changes nothing at level zero. So the level is not the number of all steps in less that
of all steps out, but the greatest such number for the last so many steps. -/
theorem greatest_levelFrom :
    (∃ ts, ts <:+ steps ∧ levelFrom 0 steps = excess ts) ∧
      ∀ ts, ts <:+ steps → excess ts ≤ levelFrom 0 steps := by
  -- from the right: the last step adds to all that goes before it
  induction steps using List.reverseRecOn with
  | nil =>
    refine ⟨⟨[], List.suffix_rfl, rfl⟩, fun ts hts => ?_⟩
    rw [List.suffix_nil.mp hts]
    exact Nat.le_refl _
  | append_singleton steps step ih =>
    obtain ⟨⟨ts, hts, hlevel⟩, hgreatest⟩ := ih
    have hsuffix {us : List Step} (hus : us <:+ steps) : us ++ [step] <:+ steps ++ [step] :=
      List.suffix_append_self_iff.mpr hus
    rw [levelFrom_concat]
    constructor
    · cases step with
      | write s => exact ⟨_, hsuffix hts, hlevel.trans (excess_write ts s).symm⟩
      | dedent =>
        refine ⟨_, hsuffix hts, ?_⟩
        rw [excess_dedent, ← hlevel]
        rfl
      | indent =>
        -- at level zero the steps before do not count
        cases hzero : levelFrom 0 steps with
        | zero => exact ⟨_, hsuffix (List.nil_suffix), rfl⟩
        | succ level =>
          refine ⟨_, hsuffix hts, ?_⟩
          rw [hzero, excess] at hlevel
          rw [excess_indent, Step.levelBehind]
          omega
    · intro us hlast
      rcases List.suffix_concat_iff.mp hlast with rfl | ⟨us, rfl, hus⟩
      · exact Nat.zero_le _
      · have hle := hgreatest us hus
        cases step with
        | write s => exact excess_write us s ▸ hle
        | dedent =>
          rw [excess_dedent]
          exact Nat.sub_le_sub_right hle 1
        | indent =>
          rw [excess] at hle
          rw [excess_indent, Step.levelBehind]
          omega

end

/-! ## Characters with their levels -/

/-- The characters that the steps write, each with the level at which it is written. -/
def letters (level : Nat) : List Step → List (Char × Nat)
  | [] => []
  | step :: steps => step.chars.map (·, level) ++ letters (step.levelBehind level) steps

theorem letters_append (level : Nat) (ss ts : List Step) :
    letters level (ss ++ ts) = letters level ss ++ letters (levelFrom level ss) ts := by
  induction ss generalizing level with
  | nil => rfl
  | cons step ss ih =>
    rw [List.cons_append, letters, letters, ih, List.append_assoc]
    rfl

/-- What is written is there, whatever the levels are. -/
theorem map_fst_letters (level : Nat) (steps : List Step) :
    (letters level steps).map Prod.fst = plain steps := by
  induction steps generalizing level with
  | nil => rfl
  | cons step steps ih =>
    rw [letters, List.map_append, ih, List.map_map]
    exact congrArg (· ++ plain steps) (List.map_id' step.chars)

/-- The lines of a text, without their newlines. -/
def cut (cs : List (Char × Nat)) : List (List (Char × Nat)) := cs.splitOnP fun c => c.1 == '\n'

/-- A line that has some text gets as much indentation as the level is at its first character. -/
def indentedLine (unit : String) : List (Char × Nat) → List Char
  | [] => []
  | (c, level) :: cs => (List.replicate level unit).flatMap String.toList ++ c :: cs.map Prod.fst

/-- The lines of a text with their indentation. -/
def indentedText (unit : String) (cs : List (Char × Nat)) : List Char :=
  ['\n'].intercalate ((cut cs).map (indentedLine unit))

/-- The same for a text whose first line is the rest of one, unless the flag says that nothing is on
it yet. -/
def indentedFrom (unit : String) (fresh : Bool) (cs : List (Char × Nat)) : List Char :=
  match cut cs with
  | [] => []
  | first :: rest =>
    ['\n'].intercalate ((if fresh then indentedLine unit first else first.map Prod.fst) ::
      rest.map (indentedLine unit))

section

variable (unit : String) (cs : List (Char × Nat)) {c : Char} {level : Nat}

theorem cut_ne_nil : cut cs ≠ [] := List.splitOnP_ne_nil _ cs

theorem cut_newline : cut (('\n', level) :: cs) = [] :: cut cs := by
  simp [cut, List.splitOnP_cons_eq_if_modifyHead]

theorem cut_cons (hc : c ≠ '\n') :
    cut ((c, level) :: cs) = (cut cs).modifyHead ((c, level) :: ·) := by
  simp [cut, List.splitOnP_cons_eq_if_modifyHead, hc]

theorem indentedFrom_true : indentedFrom unit true cs = indentedText unit cs := by
  obtain ⟨first, rest, hcut⟩ := List.exists_cons_of_ne_nil (cut_ne_nil cs)
  simp [indentedFrom, indentedText, hcut]

theorem indentedFrom_newline (fresh : Bool) :
    indentedFrom unit fresh (('\n', level) :: cs) = '\n' :: indentedFrom unit true cs := by
  obtain ⟨first, rest, hcut⟩ := List.exists_cons_of_ne_nil (cut_ne_nil cs)
  cases fresh <;> simp [indentedFrom, cut_newline, hcut, indentedLine, List.intercalate_cons_cons]

theorem indentedFrom_inside (hc : c ≠ '\n') :
    indentedFrom unit false ((c, level) :: cs) = c :: indentedFrom unit false cs := by
  obtain ⟨first, rest, hcut⟩ := List.exists_cons_of_ne_nil (cut_ne_nil cs)
  simp [indentedFrom, cut_cons cs hc, hcut, List.intercalate_cons_cons_left]

theorem indentedFrom_start (hc : c ≠ '\n') :
    indentedFrom unit true ((c, level) :: cs) =
      (List.replicate level unit).flatMap String.toList ++ c :: indentedFrom unit false cs := by
  obtain ⟨first, rest, hcut⟩ := List.exists_cons_of_ne_nil (cut_ne_nil cs)
  cases rest <;> simp [indentedFrom, cut_cons cs hc, hcut, indentedLine, List.intercalate_cons_cons]

end

/-! ## Texts of layouts -/

@[simp] theorem level_put (l : Layout) (c : Char) : (l.put c).level = l.level := by
  unfold put
  split
  · rfl
  · split <;> rfl

/-- A character is put where the lines have it. -/
theorem text_put (l : Layout) (c : Char) (cs : List (Char × Nat)) :
    (l.put c).text.toList ++ indentedFrom l.unit (l.put c).fresh cs =
      l.text.toList ++ indentedFrom l.unit l.fresh ((c, l.level) :: cs) := by
  unfold put
  split
  · next hc =>
    subst hc
    simp [indentedFrom_newline]
  · next hc =>
    split
    · next hfresh =>
      rw [hfresh, indentedFrom_start _ _ hc]
      simp
    · next hfresh =>
      rw [Bool.not_eq_true] at hfresh
      rw [hfresh, indentedFrom_inside _ _ hc]
      simp

/-- What steps add to a text. -/
theorem text_run (l : Layout) (steps : List Step) :
    (l.run steps).text.toList =
      l.text.toList ++ indentedFrom l.unit l.fresh (letters l.level steps) := by
  induction steps generalizing l with
  | nil => cases hfresh : l.fresh <;> simp [run, letters, indentedFrom, cut, indentedLine]
  | cons step steps ih =>
    cases step with
    | indent => exact ih { l with level := l.level + 1 }
    | dedent => exact ih { l with level := l.level - 1 }
    | write s =>
      have hchars (cs : List Char) (l : Layout) : ((cs.foldl put l).run steps).text.toList =
          l.text.toList ++
            indentedFrom l.unit l.fresh (cs.map (·, l.level) ++ letters l.level steps) := by
        induction cs generalizing l with
        | nil => exact ih l
        | cons c cs ihcs =>
          rw [List.foldl_cons, ihcs, unit_put, level_put, text_put]
          rfl
      exact hchars s.toList l

/-- Writing some pieces one after the other is writing all of them at once. -/
theorem run_pieces (l : Layout) (pieces : List String) :
    l.run (pieces.map .write) = l.write (String.join pieces) := by
  induction pieces generalizing l with
  | nil => simp [run, write]
  | cons s pieces ih =>
    have hjoin : String.join (s :: pieces) = s ++ String.join pieces := by simp
    rw [hjoin, write_append, ← ih]
    rfl

/-- **Indentation is told by the levels at which lines start.** Whatever the unit and the steps, the
text is what they write, where each line that has some text is put behind as many units as the level
is when its first character is written, and an empty line is left as it is. That level is the excess
of the steps in over those out, of which one at level zero does not count. So it does not matter how
a text is cut into pieces that are written one after the other. -/
theorem run_text (unit : String) :
    (∀ steps, (run { unit } steps).text.toList = indentedText unit (letters 0 steps) ∧
      (letters 0 steps).map Prod.fst = plain steps) ∧
    (∀ before s behind, ∃ level, letters 0 (before ++ .write s :: behind) =
        letters 0 before ++ (s.toList.map (·, level) ++ letters level behind) ∧
      (∃ ts, ts <:+ before ∧ level = excess ts) ∧ ∀ ts, ts <:+ before → excess ts ≤ level) ∧
    ∀ before pieces behind, run { unit } (before ++ (pieces.map .write ++ behind)) =
      run { unit } (before ++ .write (String.join pieces) :: behind) := by
  refine ⟨fun steps => ⟨?_, map_fst_letters 0 steps⟩, fun before s behind => ?_,
    fun before pieces behind => ?_⟩
  · rw [text_run, indentedFrom_true]
    rfl
  · exact ⟨levelFrom 0 before, letters_append 0 before _, greatest_levelFrom before⟩
  · rw [run_append, run_append, run_pieces, run_append]
    rfl

/-- A line that starts at level one, one that is empty, and one behind a step out too many. -/
theorem run_text_levels :
    let steps : List Step := [.indent, .write "a", .indent, .line ";", .line "", .dedent, .dedent,
      .dedent, .indent, .line "b"]
    (run { unit := "> " } steps).text.toList = "> a;\n\n> b\n".toList ∧
      (letters 0 steps).map Prod.fst = plain steps ∧
      ([.indent] <:+ steps.take 9 ∧ ∃ level, letters 0 steps = letters 0 (steps.take 9) ++
        ("b\n".toList.map (·, level) ++ letters level []) ∧ excess [.indent] ≤ level) ∧
      run { unit := "> " } (steps.take 9 ++ (["", "b", "\n"].map .write ++ [])) =
        run { unit := "> " } steps := by
  intro steps
  obtain ⟨htext, hlevels, hpieces⟩ := run_text "> "
  obtain ⟨level, hletters, -, hgreatest⟩ := hlevels (steps.take 9) "b\n" []
  have hlast : [.indent] <:+ steps.take 9 := ⟨steps.take 8, rfl⟩
  refine ⟨(htext steps).1.trans (by decide), (htext steps).2,
    ⟨hlast, level, hletters, hgreatest _ hlast⟩, hpieces (steps.take 9) ["", "b", "\n"] []⟩

end Layout

end LoopNest
