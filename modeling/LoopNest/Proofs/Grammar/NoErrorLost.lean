import LoopNest.Proofs.Grammar.ConsumesStmt
import LoopNest.Proofs.Grammar.Progress
import LoopNest.Proofs.Grammar.Strict

/-!
# No error is lost

Behind an error reading goes on, so that one reading finds many problems. A source text with an
error is no program all the same, wherever the error is.

* `Program.Covers`: all tokens of a source text are those of the functions of a program.
* `Program.LaidIn`, `Program.laidIn_of_readStrict`: so it is for what is read without recovery, and
  the nodes have the spans of their tokens.
* `Program.read_loses_no_error`: reading with recovery yields what reading without it yields, and an
  error where that one meets an error.
-/

namespace LoopNest

namespace Reader

variable {source : String} {r : Reader}

/-- All items of a source lie ahead of the first reader. -/
theorem remaining_ofSource (h : ofSource source = .ok r) : r.remaining = scan source := by
  unfold ofSource at h
  split at h
  · next hscan =>
    obtain rfl := Except.ok.inj h
    exact hscan.symm
  · cases h
  · next hscan =>
    obtain ⟨items, t, hitems, -⟩ := scan_closed source
    rw [hscan] at hitems
    exact absurd hitems.symm (by simp)

/-- The functions of a source are read up to its end. -/
theorem atEnd_of_functions (h : r.Closed) {fs : List Function} {r' : Reader}
    (hrun : Grammar.functions r = (.ok fs, r')) : r'.atEnd = true := by
  obtain ⟨-, found, r₁, hmany, hend⟩ := (Grammar.ends_of_closed h).functions
  unfold Grammar.functions at hrun
  rw [Parse.bind_apply, hmany] at hrun
  obtain ⟨-, rfl⟩ := Prod.mk.inj hrun
  exact hend

end Reader

namespace Program

variable {source : String} {p : Program}

/-- The source text has no faults, and its tokens are those of the functions, one function behind
the other, and the end of the file. -/
def Covers (source : String) (p : Program) : Prop :=
  ∃ ts last, tokenize source = .ok (ts ++ [last]) ∧ last.kind = .endOfFile ∧
    Grammar.Rows Grammar.DerivesFunction ts p.functions

theorem readStrict_of_read (h : read source = .ok p) : readStrict source = .ok p := by
  cases hstrict : readStrict source with
  | ok q =>
    rw [read_of_readStrict hstrict] at h
    exact h
  | error e =>
    obtain ⟨e', he', -⟩ := starts_of_readStrict hstrict
    rw [h] at he'
    cases he'

/-- The tokens of the source text are those of the functions and the end of the file. The functions
are laid in them. -/
def LaidIn (source : String) (p : Program) : Prop :=
  ∃ ts last, tokenize source = .ok (ts ++ [last]) ∧ last.kind = .endOfFile ∧
    Grammar.Rows Grammar.LaidFunction ts p.functions

theorem LaidIn.covers (h : LaidIn source p) : Covers source p := by
  obtain ⟨ts, last, htokens, hlast, hfs⟩ := h
  exact ⟨ts, last, htokens, hlast, hfs.mono fun _ _ h => h.derives⟩

/-- Without recovery no token is passed over that is not part of a function. -/
theorem laidIn_of_readStrict (h : readStrict source = .ok p) : LaidIn source p := by
  unfold readStrict at h
  cases hr : Reader.ofSource source with
  | error f => simp [hr] at h
  | ok r =>
    obtain ⟨hsound, -⟩ := Reader.sound_of_ofSource hr
    rcases hrun : Grammar.Handling.strict.functions r with ⟨failure | fs, r'⟩
    · simp [hr, hrun] at h
    · simp only [hr, hrun] at h
      obtain rfl := Except.ok.inj h
      have hend := Reader.atEnd_of_functions hsound.closed (Grammar.functions_follows.ok hrun)
      obtain ⟨-, -, ts, ⟨hremaining, -⟩, hfs⟩ :=
        Grammar.Handling.functions_consumes r hsound.closed hsound.scoped fs r' hrun
      rw [Reader.remaining_ofSource hr, Reader.remaining] at hremaining
      have hnothing : r'.items = [] := scan_nothing_behind_end hremaining hend
      refine ⟨ts, r'.current, tokenize_of_scan ?_, eq_of_beq hend, hfs⟩
      rw [hremaining, hnothing, List.map_append]
      rfl

/-- **No error is lost.** A source text is read as a program just in case it is read as that program
by the same grammar where every error ends the reading: a syntax error or a fault in any construct,
at any depth, and a second declaration of a name. In that case there are no faults at all, and all
tokens are those of the functions of the program, none passed over. Where that reading ends with an
error there is no program, and the first problem is that error. Nor is there one with a fault
anywhere, behind the last function or elsewhere. -/
theorem read_loses_no_error (source : String) :
    (∀ p, read source = .ok p ↔ readStrict source = .ok p) ∧
      (∀ p, read source = .ok p → Covers source p) ∧
      (∀ e, readStrict source = .error e → ∃ e', read source = .error e' ∧ e.Starts e') ∧
      ∀ f, .fault f ∈ scan source → ∃ e, read source = .error e := by
  have hcovers (p : Program) (h : read source = .ok p) : Covers source p :=
    (laidIn_of_readStrict (readStrict_of_read h)).covers
  refine ⟨fun p => ⟨readStrict_of_read, read_of_readStrict⟩, hcovers,
    fun e => starts_of_readStrict, fun f hf => ?_⟩
  cases hread : read source with
  | error e => exact ⟨e, rfl⟩
  | ok p =>
    obtain ⟨ts, last, htokens, -⟩ := hcovers p hread
    rw [scan_of_tokenize htokens] at hf
    obtain ⟨t, -, ht⟩ := List.mem_map.mp hf
    cases ht

end Program

end LoopNest
