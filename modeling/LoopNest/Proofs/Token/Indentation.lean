import LoopNest.Layout
import LoopNest.Proofs.Token.Spelling

/-!
# Indentation

A layout puts blanks in front of lines and adds nothing else, so that an indented text spells
the words that its pieces spell.

* `Layout.plain`: the pieces of a layout without indentation.
* `Indented`: a text with blanks in front of its lines.
* `Spelled.render`: what the pieces spell is spelled by the text.
-/

namespace LoopNest

/-- The text `ds` is `cs` with blanks in front of its lines. The flag tells whether a line starts
at the front. -/
inductive Indented : Bool → List Char → List Char → Prop
  | nil (fresh : Bool) : Indented fresh [] []
  | newline {fresh : Bool} {cs ds : List Char} (h : Indented true cs ds) :
      Indented fresh ('\n' :: cs) ('\n' :: ds)
  | start {c : Char} {cs ds pad : List Char} (hc : c ≠ '\n') (hpad : ∀ d ∈ pad, d = ' ')
      (h : Indented false cs ds) : Indented true (c :: cs) (pad ++ c :: ds)
  | inside {c : Char} {cs ds : List Char} (hc : c ≠ '\n') (h : Indented false cs ds) :
      Indented false (c :: cs) (c :: ds)

namespace Indented

variable {fresh : Bool} {cs ds rest : List Char}

theorem head?_eq (h : Indented false cs ds) : ds.head? = cs.head? := by
  cases h <;> rfl

theorem append (hcs : '\n' ∉ cs) (h : Indented false (cs ++ rest) ds) :
    ∃ ds', ds = cs ++ ds' ∧ Indented false rest ds' := by
  induction cs generalizing ds with
  | nil => exact ⟨ds, rfl, h⟩
  | cons c cs ih =>
    cases h with
    | newline h => exact absurd List.mem_cons_self hcs
    | inside _ h =>
      obtain ⟨ds', rfl, hrest⟩ := ih (fun hmem => hcs (List.mem_cons_of_mem _ hmem)) h
      exact ⟨ds', rfl, hrest⟩

/-- A word is not torn apart: blanks stand in front of all of it. -/
theorem word (hcs : '\n' ∉ cs) (hne : cs ≠ []) (h : Indented fresh (cs ++ rest) ds) :
    ∃ pad ds', (∀ d ∈ pad, d = ' ') ∧ ds = pad ++ (cs ++ ds') ∧ Indented false rest ds' := by
  cases fresh with
  | false =>
    obtain ⟨ds', rfl, hrest⟩ := h.append hcs
    exact ⟨[], ds', by simp, rfl, hrest⟩
  | true =>
    obtain ⟨c, cs, rfl⟩ := List.exists_cons_of_ne_nil hne
    cases h with
    | newline h => exact absurd List.mem_cons_self hcs
    | start _ hpad h =>
      obtain ⟨ds', rfl, hrest⟩ := h.append fun hmem => hcs (List.mem_cons_of_mem _ hmem)
      exact ⟨_, ds', hpad, rfl, hrest⟩

end Indented

namespace Spelled

variable {cs ds : List Char} {ws : List Word}

theorem spaces {pad : List Char} (hpad : ∀ d ∈ pad, d = ' ') (h : Spelled cs ws) :
    Spelled (pad ++ cs) ws := by
  induction pad with
  | nil => exact h
  | cons d pad ih =>
    obtain rfl := hpad d List.mem_cons_self
    exact .gap (by decide) (ih fun e he => hpad e (List.mem_cons_of_mem _ he))

/-- Blanks in front of lines do not change what is spelled. -/
theorem indented (h : Spelled cs ws) {fresh : Bool} (hds : Indented fresh cs ds) :
    Spelled ds ws := by
  induction h generalizing fresh ds with
  | done =>
    cases hds
    exact .done
  | gap hc _ ih =>
    cases hds with
    | newline hds => exact .gap hc (ih hds)
    | start _ hpad hds => exact (gap hc (ih hds)).spaces hpad
    | inside _ hds => exact .gap hc (ih hds)
  | @word w cs rest ws hw _ ih =>
    have hne : cs ≠ [] := by
      obtain ⟨c, cs, rfl, _⟩ := hw.found rest rfl
      exact List.cons_ne_nil c cs
    obtain ⟨pad, ds', hpad, rfl, hrest⟩ := hds.word hw.no_newline hne
    have hhead := hrest.head?_eq
    refine (word ⟨hw.lexeme, hw.kind_ne, hw.no_newline, fun rest' h => ?_⟩ (ih hrest)).spaces hpad
    exact hw.found rest' (h.trans hhead)

end Spelled

/-! ## Layouts -/

namespace Layout

def Step.chars : Step → List Char
  | write s => s.toList
  | indent | dedent => []

/-- The pieces of a layout without indentation. -/
def plain (steps : List Step) : List Char := steps.flatMap Step.chars

@[simp] theorem plain_nil : plain [] = [] := rfl

@[simp] theorem plain_write (s : String) (steps : List Step) :
    plain (.write s :: steps) = s.toList ++ plain steps := rfl

@[simp] theorem plain_line (s : String) (steps : List Step) :
    plain (.line s :: steps) = s.toList ++ '\n' :: plain steps := by
  simp [plain, Step.line, Step.chars, String.toList_append]

@[simp] theorem plain_indent (steps : List Step) : plain (.indent :: steps) = plain steps := rfl

@[simp] theorem plain_dedent (steps : List Step) : plain (.dedent :: steps) = plain steps := rfl

@[simp] theorem plain_append (ss ts : List Step) : plain (ss ++ ts) = plain ss ++ plain ts :=
  List.flatMap_append

/-- The layout `l'` goes on from `l` with the text `cs`, indented. -/
def Adds (l : Layout) (cs : List Char) (l' : Layout) : Prop :=
  ∃ ds, l'.text.toList = l.text.toList ++ ds ∧ Indented l.fresh cs ds

theorem adds_put {l l' : Layout} {c : Char} {cs : List Char} (hunit : l.unit = "  ")
    (h : (l.put c).Adds cs l') : l.Adds (c :: cs) l' := by
  obtain ⟨ds, htext, hds⟩ := h
  by_cases hc : c = '\n'
  · subst hc
    refine ⟨'\n' :: ds, ?_, .newline hds⟩
    rw [htext]
    simp [put]
  · cases hfresh : l.fresh with
    | true =>
      have hput : l.put c =
          { l with text := (l.text ++ String.join (List.replicate l.level l.unit)).push c,
                   fresh := false } := by
        rw [put, if_neg hc, if_pos hfresh]
      rw [hput] at htext hds
      let pad := (List.replicate l.level l.unit).flatMap String.toList
      have hpad : ∀ d ∈ pad, d = ' ' := by
        intro d hd
        obtain ⟨s, hs, hd⟩ := List.mem_flatMap.mp hd
        rw [(List.mem_replicate.mp hs).2, hunit] at hd
        simpa using hd
      refine ⟨pad ++ c :: ds, ?_, ?_⟩
      · rw [htext]
        simp [pad]
      · rw [hfresh]
        exact .start hc hpad hds
    | false =>
      have hput : l.put c = { l with text := l.text.push c } := by
        rw [put, if_neg hc, if_neg (by simp [hfresh])]
      rw [hput] at htext hds
      refine ⟨c :: ds, ?_, ?_⟩
      · rw [htext]
        simp
      · rw [hfresh] at hds ⊢
        exact .inside hc hds

@[simp] theorem unit_put (l : Layout) (c : Char) : (l.put c).unit = l.unit := by
  unfold put
  split
  · rfl
  · split <;> rfl

/-- A layout adds the plain text of its steps, indented. -/
theorem adds_run {l : Layout} (hunit : l.unit = "  ") (steps : List Step) :
    l.Adds (plain steps) (l.run steps) := by
  induction steps generalizing l with
  | nil => exact ⟨[], by simp [run], .nil _⟩
  | cons step steps ih =>
    cases step with
    | indent => exact @ih { l with level := l.level + 1 } hunit
    | dedent => exact @ih { l with level := l.level - 1 } hunit
    | write s =>
      have hchars (cs : List Char) (l : Layout) (hunit : l.unit = "  ") :
          l.Adds (cs ++ plain steps) ((cs.foldl put l).run steps) := by
        induction cs generalizing l with
        | nil => exact ih hunit
        | cons c cs ihcs => exact adds_put hunit (ihcs (l.put c) (by simpa using hunit))
      exact hchars s.toList l hunit

end Layout

/-- The text of a layout spells what its steps spell. -/
theorem Spelled.render {steps : List Layout.Step} {ws : List Word}
    (h : Spelled (Layout.plain steps) ws) : Spelled (Layout.render steps).toList ws := by
  obtain ⟨ds, htext, hds⟩ := Layout.adds_run (l := {}) rfl steps
  have htext : (Layout.render steps).toList = ds := by
    rw [Layout.render, htext]
    rfl
  rw [htext]
  exact h.indented hds

end LoopNest
